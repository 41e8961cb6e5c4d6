import LarsSystem.PoolPartition
import LarsSystem.Transition

/-!
# The memory account of the pool

`_total_mem` is kept by `make_io_buf_list`, which charges as many blocks as it was
asked for, and by `alloc_buf`, which charges each block it makes. The list begins
with a block of its own that the loop does not count, so that one block of every
size class is never charged: what the blocks amount to is always more than the
account, by the same number.
-/

namespace LarsSystem.Reactor

open LarsSystem.LinkedChain
open LarsSystem.MachineWord

namespace BufPool

/-- The kilobytes a block is charged with. -/
def kilobytes (cap : MemCap) : Nat := cap.bytes / 1024

/-- What all the blocks ever made amount to, in kilobytes: none is given back. -/
def createdMem (s : BufPool) : Nat := s.heap.total fun block => kilobytes block.buf.capacity

/-- The account is true and below the limit. -/
def Accounted (s : BufPool) : Prop :=
  s.totalMem = s.createdMem ∧ s.createdMem < extraMemLimit

/-- A call of the pool, with the block that is given back. -/
inductive PoolCall where
  | allocBuf (n : Int)
  | revert (p : Ptr)

variable (garbage : Ptr → List Byte)

def call (s : BufPool) : PoolCall → Except PoolFault BufPool
  | .allocBuf n => (s.allocBuf garbage n).map Prod.snd
  | .revert p => s.revert p

/-! ## The constructor -/

theorem createdMem_newBuf (s : BufPool) (cap : MemCap) :
    (s.newBuf garbage cap).createdMem = s.createdMem + kilobytes cap :=
  ObjectHeap.total_alloc _ _ _

/-- What is made and charged by the loop of `make_io_buf_list`. -/
theorem linkBufs_account (cap : MemCap) (num : Nat) (prev : Ptr) (s : BufPool) :
    (linkBufs garbage cap num prev s).createdMem = s.createdMem + kilobytes cap * num ∧
      (linkBufs garbage cap num prev s).totalMem = s.totalMem := by
  induction num generalizing prev s with
  | zero => exact ⟨rfl, rfl⟩
  | succ num ih =>
    obtain ⟨hcreated, htotal⟩ := ih s.heap.next
      { s.newBuf garbage cap with
        heap := (s.newBuf garbage cap).heap.modify prev fun block =>
          { block with next := some s.heap.next } }
    refine ⟨?_, htotal⟩
    rw [linkBufs, hcreated]
    have hlinked : createdMem
        { s.newBuf garbage cap with
          heap := (s.newBuf garbage cap).heap.modify prev fun block =>
            { block with next := some s.heap.next } } = (s.newBuf garbage cap).createdMem :=
      ObjectHeap.total_modify _ _ _ fun _ => rfl
    rw [hlinked, createdMem_newBuf, Nat.mul_succ]
    omega

/-- **One block more than is charged** stands in every list. -/
theorem makeIoBufList_account (cap : MemCap) (num : Nat) (s : BufPool) :
    (makeIoBufList garbage cap num s).createdMem =
        s.createdMem + kilobytes cap * num + kilobytes cap ∧
      (makeIoBufList garbage cap num s).totalMem = s.totalMem + kilobytes cap * num := by
  obtain ⟨hcreated, htotal⟩ := linkBufs_account garbage cap num s.heap.next
    { s.newBuf garbage cap with pool := Function.update s.pool cap (some s.heap.next) }
  constructor
  · have hfirst : createdMem
        { s.newBuf garbage cap with pool := Function.update s.pool cap (some s.heap.next) } =
          (s.newBuf garbage cap).createdMem := rfl
    have hlist : (makeIoBufList garbage cap num s).createdMem =
        (linkBufs garbage cap num s.heap.next
          { s.newBuf garbage cap with
            pool := Function.update s.pool cap (some s.heap.next) }).createdMem := rfl
    rw [hlist, hcreated, hfirst, createdMem_newBuf]
    omega
  · exact congrArg (· + kilobytes cap * num) htotal

/-- What the lists hold without having been charged: their first blocks. -/
def uncharged (lists : List (MemCap × Nat)) : Nat := (lists.map fun list => kilobytes list.1).sum

def charged (lists : List (MemCap × Nat)) : Nat :=
  (lists.map fun list => kilobytes list.1 * list.2).sum

theorem foldl_account (lists : List (MemCap × Nat)) (s : BufPool) :
    (lists.foldl (fun s list => makeIoBufList garbage list.1 list.2 s) s).createdMem =
        s.createdMem + charged lists + uncharged lists ∧
      (lists.foldl (fun s list => makeIoBufList garbage list.1 list.2 s) s).totalMem =
        s.totalMem + charged lists := by
  induction lists generalizing s with
  | nil => exact ⟨rfl, rfl⟩
  | cons list lists ih =>
    obtain ⟨hcreated, htotal⟩ := makeIoBufList_account garbage list.1 list.2 s
    obtain ⟨hcreated', htotal'⟩ := ih (makeIoBufList garbage list.1 list.2 s)
    simp only [List.foldl_cons, charged, uncharged, List.map_cons, List.sum_cons] at *
    omega

theorem create_account :
    (create garbage).createdMem = 347892 ∧ (create garbage).totalMem = 334240 := by
  obtain ⟨hcreated, htotal⟩ := foldl_account garbage bufLists start
  have hcharged : charged bufLists = 334240 := rfl
  have huncharged : uncharged bufLists = 13652 := rfl
  rw [hcharged, huncharged] at hcreated
  rw [hcharged] at htotal
  exact ⟨hcreated, htotal⟩

/-! ## Calls -/

/-- What is kept: the difference, and the limit of what was charged. -/
def ChargedBelow (s : BufPool) : Prop :=
  s.createdMem = s.totalMem + 13652 ∧ s.totalMem < extraMemLimit

theorem chargedBelow_create : (create garbage).ChargedBelow := by
  obtain ⟨hcreated, htotal⟩ := create_account garbage
  unfold ChargedBelow
  rw [hcreated, htotal]
  exact ⟨rfl, by decide⟩

theorem ChargedBelow.allocBuf {s s' : BufPool} {n : Int} {p : Option Ptr}
    (hcharged : s.ChargedBelow) (halloc : s.allocBuf garbage n = Except.ok (p, s')) :
    s'.ChargedBelow := by
  obtain ⟨hcreated, hlimit⟩ := hcharged
  unfold BufPool.allocBuf at halloc
  split at halloc
  · cases halloc
    exact ⟨hcreated, hlimit⟩
  · rename_i index hindex
    split at halloc
    · split at halloc
      · cases halloc
      · rename_i hroom
        cases halloc
        have hnew : createdMem { s.newBuf garbage index with
            totalMem := s.totalMem + index.bytes / 1024 } =
              s.createdMem + kilobytes index := createdMem_newBuf garbage s index
        refine ⟨?_, Nat.not_le.mp hroom⟩
        rw [hnew, hcreated]
        exact Nat.add_right_comm _ _ _
    · rename_i target hpool
      split at halloc
      · cases halloc
      · rename_i block hcell
        cases halloc
        have hmodify : (s.heap.modify target fun block : PoolBlock =>
            { block with next := none }).total
              (fun block => kilobytes block.buf.capacity) = s.createdMem :=
          ObjectHeap.total_modify _ _ _ fun _ => rfl
        exact ⟨hmodify.trans hcreated, hlimit⟩

theorem ChargedBelow.revert {s s' : BufPool} {p : Ptr} (hcharged : s.ChargedBelow)
    (hrevert : s.revert p = Except.ok s') : s'.ChargedBelow := by
  obtain ⟨hcreated, hlimit⟩ := hcharged
  unfold BufPool.revert at hrevert
  split at hrevert
  · cases hrevert
  · rename_i block hcell
    cases hrevert
    refine ⟨?_, hlimit⟩
    have hmodify : (s.heap.modify p fun block : PoolBlock =>
        ⟨block.buf.clear, s.pool block.buf.capacity⟩).total
          (fun block => kilobytes block.buf.capacity) = s.createdMem :=
      ObjectHeap.total_modify _ _ _ fun _ => rfl
    exact hmodify.trans hcreated

/-- What a run keeps. -/
theorem run_chargedBelow {calls : List PoolCall} {s : BufPool}
    (ends : calls.foldlM (call garbage) (create garbage) = Except.ok s) : s.ChargedBelow := by
  refine Transition.foldlM_invariant ChargedBelow ?_ ends (chargedBelow_create garbage)
  intro s label t hcall hcharged
  cases label with
  | revert p => exact hcharged.revert hcall
  | allocBuf n =>
    obtain ⟨⟨p, s'⟩, halloc, rfl⟩ := Transition.map_eq_ok.mp hcall
    exact hcharged.allocBuf garbage halloc

/-! ### Past the limit -/

/-- The requests that empty a free list. -/
theorem allocBuf_drains {n : Int} {cap : MemCap} (hindex : memIndex n = some cap) {l : List Ptr}
    {s : BufPool} (hchain : Chain PoolBlock.next s.heap (s.pool cap) l) :
    ∃ t, (List.replicate l.length (PoolCall.allocBuf n)).foldlM (call garbage) s = Except.ok t ∧
      t.pool cap = none ∧ t.totalMem = s.totalMem := by
  induction l generalizing s with
  | nil =>
    cases hpool : s.pool cap with
    | none => exact ⟨s, rfl, hpool, rfl⟩
    | some p =>
      rw [hpool] at hchain
      cases hchain
  | cons p l ih =>
    cases hpool : s.pool cap with
    | none =>
      rw [hpool] at hchain
      cases hchain
    | some q =>
      have hnodup := hchain.nodup
      rw [hpool] at hchain
      obtain ⟨block, rest, hcell, heq, hrest⟩ := hchain.head_cons
      obtain ⟨rfl, rfl⟩ := List.cons.inj heq
      have hcall : s.call garbage (.allocBuf n) = Except.ok
          { s with
            heap := s.heap.modify p fun block => { block with next := none }
            pool := Function.update s.pool cap block.next } := by
        simp only [call, BufPool.allocBuf, hindex, hpool, hcell]
        rfl
      have hchain' : Chain PoolBlock.next
          (s.heap.modify p fun block : PoolBlock => { block with next := none })
          (Function.update s.pool cap block.next cap) l := by
        rw [Function.update_self]
        apply hrest.frame
        intro r hr
        refine ObjectHeap.modify_other ?_ _
        rintro rfl
        exact (List.nodup_cons.mp hnodup).1 hr
      obtain ⟨t, hrun, hempty, htotal⟩ := ih
        (s := { s with
          heap := s.heap.modify p fun block => { block with next := none }
          pool := Function.update s.pool cap block.next }) hchain'
      refine ⟨t, ?_, hempty, htotal⟩
      rw [List.length_cons, List.replicate_succ, List.foldlM_cons, hcall]
      exact hrun

/-- The requests that an empty free list makes new blocks for. -/
theorem allocBuf_makes {n : Int} {cap : MemCap} (hindex : memIndex n = some cap) (k : Nat)
    {s : BufPool} (hempty : s.pool cap = none)
    (hlimit : s.totalMem + kilobytes cap * k < extraMemLimit) :
    ∃ t, (List.replicate k (PoolCall.allocBuf n)).foldlM (call garbage) s = Except.ok t ∧
      t.totalMem = s.totalMem + kilobytes cap * k := by
  induction k generalizing s with
  | zero => exact ⟨s, rfl, rfl⟩
  | succ k ih =>
    rw [Nat.mul_succ] at hlimit
    have hroom : ¬ s.totalMem + cap.bytes / 1024 ≥ extraMemLimit := by
      have hcharge : kilobytes cap = cap.bytes / 1024 := rfl
      omega
    have hcall : s.call garbage (.allocBuf n) = Except.ok
        { s.newBuf garbage cap with totalMem := s.totalMem + cap.bytes / 1024 } := by
      simp only [call, BufPool.allocBuf, hindex, hempty, if_neg hroom]
      rfl
    obtain ⟨t, hrun, htotal⟩ := ih
      (s := { s.newBuf garbage cap with totalMem := s.totalMem + cap.bytes / 1024 }) hempty
      (by
        have hcharge : kilobytes cap = cap.bytes / 1024 := rfl
        simp only
        omega)
    refine ⟨t, ?_, ?_⟩
    · rw [List.replicate_succ, List.foldlM_cons, hcall]
      exact hrun
    · have hcharge : kilobytes cap = cap.bytes / 1024 := rfl
      rw [htotal, Nat.mul_succ]
      simp only
      omega

/-- Once the free blocks of eight megabytes are handed out, more are made. -/
theorem allocBuf_past_free (k : Nat) (hlimit : 334240 + 8192 * k < extraMemLimit) :
    ∃ (n : Nat) (s : BufPool), (List.replicate (n + k) (PoolCall.allocBuf 8388608)).foldlM
        (call garbage) (create garbage) = Except.ok s ∧ s.totalMem = 334240 + 8192 * k := by
  have hindex : memIndex 8388608 = some .m8M := rfl
  have hkilobytes : kilobytes .m8M = 8192 := rfl
  obtain ⟨free, hpart⟩ := partition_create garbage
  obtain ⟨s, hdrain, hempty, htotal⟩ := allocBuf_drains garbage hindex (hpart.chain .m8M)
  rw [(create_account garbage).2] at htotal
  rw [← htotal, ← hkilobytes] at hlimit
  obtain ⟨t, hmake, htotal'⟩ := allocBuf_makes garbage hindex k hempty hlimit
  rw [htotal, hkilobytes] at htotal'
  refine ⟨(free .m8M).length, t, ?_, htotal'⟩
  rw [List.replicate_add, List.foldlM_append, hdrain]
  exact hmake

/-- **The blocks pass the limit**: once the free blocks of eight megabytes are handed out, 599
    more are made before the pool ends the process. -/
theorem created_passes_limit :
    ∃ (calls : List PoolCall) (s : BufPool),
      calls.foldlM (call garbage) (create garbage) = Except.ok s ∧
        extraMemLimit ≤ s.createdMem := by
  have hlimit : extraMemLimit = 5242880 := rfl
  obtain ⟨n, s, hrun, htotal⟩ := allocBuf_past_free garbage 599 (by omega)
  have hcreated := (run_chargedBelow garbage hrun).1
  exact ⟨_, s, hrun, by omega⟩

/-- **The account is never true**: in every run that does not reach the exit the blocks amount to
    13652 kilobytes more than what is charged, and it is the charged part that stays below the
    limit. -/
theorem account_never_true (calls : List PoolCall) {s : BufPool}
    (ends : calls.foldlM (call garbage) (create garbage) = Except.ok s) :
    ¬ s.Accounted ∧ s.createdMem = s.totalMem + 13652 ∧ s.totalMem < extraMemLimit := by
  have hcharged := run_chargedBelow garbage ends
  refine ⟨?_, hcharged⟩
  rintro ⟨heq, -⟩
  have hmore := hcharged.1
  omega

/-- After the free blocks of eight megabytes are handed out, and one more is made. -/
theorem account_never_true_made :
    ∃ (n : Nat) (s : BufPool), (List.replicate (n + 1) (PoolCall.allocBuf 8388608)).foldlM
        (call fun _ => []) (create fun _ => []) = Except.ok s ∧ s.totalMem = 342432 ∧
      ¬ s.Accounted ∧ s.createdMem = s.totalMem + 13652 ∧ s.totalMem < extraMemLimit := by
  obtain ⟨n, s, hrun, htotal⟩ := allocBuf_past_free (fun _ => []) 1 (by decide)
  exact ⟨n, s, hrun, htotal, account_never_true (fun _ => []) _ hrun⟩

/-- From start-up on the account is short. -/
theorem start_not_accounted :
    ¬ ∀ (calls : List PoolCall) (s : BufPool),
      calls.foldlM (call fun _ => []) (create fun _ => []) = Except.ok s → s.Accounted := by
  intro haccounted
  obtain ⟨hcreated, htotal⟩ := create_account fun _ => []
  have hequal := (haccounted [] _ rfl).1
  rw [hcreated, htotal] at hequal
  cases hequal

end BufPool

end LarsSystem.Reactor
