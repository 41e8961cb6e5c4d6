import LarsSystem.BufPool
import Mathlib.Data.List.Nodup

/-!
# Every block is free or held

The free lists and the blocks that are held divide the blocks of the pool among
them. `alloc_buf` hands out a block that nobody held, new or from the front of
the list of its size class; `revert` puts a block at the front of the list of its
capacity; the constructor makes lists of free blocks.
-/

namespace LarsSystem.Reactor

open LarsSystem.LinkedChain
open LarsSystem.MachineWord

namespace BufPool

/-! ## The division of the blocks -/

/-- The blocks are divided into those that are held and the free lists. -/
structure Partition (s : BufPool) (held : Ptr → Prop) (free : MemCap → List Ptr) : Prop where
  chain : ∀ cap, Chain PoolBlock.next s.heap (s.pool cap) (free cap)
  sized : ∀ cap, ∀ p ∈ free cap, ∃ block, s.heap.cells p = some block ∧
    block.buf.capacity = cap ∧ block.buf.head = 0 ∧ block.buf.length = 0
  held_block : ∀ p, held p → ∃ block, s.heap.cells p = some block ∧ block.next = none
  apart : ∀ cap, ∀ p ∈ free cap, ¬ held p
  covered : ∀ p block, s.heap.cells p = some block → held p ∨ p ∈ free block.buf.capacity

/-- Where one block is. -/
def Placed (s : BufPool) (held : Ptr → Prop) (free : MemCap → List Ptr) (p : Ptr) : Prop :=
  match s.heap.cells p with
  | none => ¬ held p ∧ ∀ cap, p ∉ free cap
  | some block =>
    (held p ∧ block.next = none ∧ ∀ cap, p ∉ free cap) ∨
      (¬ held p ∧ (block.buf.head = 0 ∧ block.buf.length = 0) ∧
        ∀ cap, p ∈ free cap ↔ cap = block.buf.capacity)

theorem partition_start : Partition start (fun _ => False) fun _ => [] := by
  constructor
  · intro cap
    exact Chain.nil
  · intro cap p hp
    cases hp
  · intro p hp
    exact hp.elim
  · intro cap p hp
    cases hp
  · intro p block hcell
    cases hcell

section Partition

variable {s : BufPool} {held : Ptr → Prop} {free : MemCap → List Ptr}
  (hpart : Partition s held free)
include hpart

/-- A free block is in the list of its capacity only. -/
theorem Partition.cap_eq {p : Ptr} {block : PoolBlock} (hcell : s.heap.cells p = some block)
    {cap : MemCap} (hp : p ∈ free cap) : block.buf.capacity = cap := by
  obtain ⟨block', hcell', hcap, -⟩ := hpart.sized cap p hp
  cases hcell.symm.trans hcell'
  exact hcap

theorem Partition.live {p : Ptr} {cap : MemCap} (hp : p ∈ free cap) :
    ∃ block, s.heap.cells p = some block := by
  obtain ⟨block, hcell, -⟩ := hpart.sized cap p hp
  exact ⟨block, hcell⟩

theorem Partition.not_held_next : ¬ held s.heap.next := by
  intro hheld
  obtain ⟨block, hcell, -⟩ := hpart.held_block _ hheld
  exact Nat.lt_irrefl _ (ObjectHeap.lt_next hcell)

theorem Partition.not_free_next (cap : MemCap) : s.heap.next ∉ free cap := by
  intro hfree
  obtain ⟨block, hcell⟩ := hpart.live hfree
  exact Nat.lt_irrefl _ (ObjectHeap.lt_next hcell)

omit hpart in
theorem placed_held {p : Ptr} {block : PoolBlock} (hcell : s.heap.cells p = some block)
    (hheld : held p) (hnext : block.next = none) (hfree : ∀ cap, p ∉ free cap) :
    Placed s held free p := by
  unfold Placed
  rw [hcell]
  exact Or.inl ⟨hheld, hnext, hfree⟩

omit hpart in
theorem placed_free {p : Ptr} {block : PoolBlock} (hcell : s.heap.cells p = some block)
    (hheld : ¬ held p) (hempty : block.buf.head = 0 ∧ block.buf.length = 0)
    (hfree : ∀ cap, p ∈ free cap ↔ cap = block.buf.capacity) : Placed s held free p := by
  unfold Placed
  rw [hcell]
  exact Or.inr ⟨hheld, hempty, hfree⟩

theorem Partition.placed (p : Ptr) : Placed s held free p := by
  cases hcell : s.heap.cells p with
  | none =>
    unfold Placed
    rw [hcell]
    refine ⟨?_, ?_⟩
    · intro hheld
      obtain ⟨block, hlive, -⟩ := hpart.held_block p hheld
      cases hcell.symm.trans hlive
    · intro cap hfree
      obtain ⟨block, hlive⟩ := hpart.live hfree
      cases hcell.symm.trans hlive
  | some block =>
    rcases hpart.covered p block hcell with hheld | hfree
    · obtain ⟨block', hcell', hnext⟩ := hpart.held_block p hheld
      cases hcell.symm.trans hcell'
      exact placed_held hcell hheld hnext fun cap hin => hpart.apart cap p hin hheld
    · obtain ⟨block', hcell', -, hempty⟩ := hpart.sized _ p hfree
      cases hcell.symm.trans hcell'
      apply placed_free hcell (hpart.apart _ p hfree) hempty
      intro cap
      constructor
      · exact fun hin => (hpart.cap_eq hcell hin).symm
      · rintro rfl
        exact hfree

omit hpart in
theorem partition_of_placed
    (hchain : ∀ cap, Chain PoolBlock.next s.heap (s.pool cap) (free cap))
    (hplaced : ∀ p, Placed s held free p) : Partition s held free := by
  refine ⟨hchain, ?_, ?_, ?_, ?_⟩
  · intro cap p hp
    have hp' := hplaced p
    unfold Placed at hp'
    split at hp'
    · exact absurd hp (hp'.2 cap)
    · rename_i block hcell
      rcases hp' with ⟨-, -, hnone⟩ | ⟨-, hempty, hfree⟩
      · exact absurd hp (hnone cap)
      · exact ⟨block, hcell, ((hfree cap).mp hp).symm, hempty⟩
  · intro p hheld
    have hp' := hplaced p
    unfold Placed at hp'
    split at hp'
    · exact absurd hheld hp'.1
    · rename_i block hcell
      rcases hp' with ⟨-, hnext, -⟩ | ⟨hnot, -⟩
      · exact ⟨block, hcell, hnext⟩
      · exact absurd hheld hnot
  · intro cap p hp hheld
    have hp' := hplaced p
    unfold Placed at hp'
    split at hp'
    · exact hp'.1 hheld
    · rcases hp' with ⟨-, -, hnone⟩ | ⟨hnot, -⟩
      · exact hnone cap hp
      · exact hnot hheld
  · intro p block hcell
    have hp' := hplaced p
    unfold Placed at hp'
    rw [hcell] at hp'
    rcases hp' with ⟨hheld, -⟩ | ⟨-, -, hfree⟩
    · exact Or.inl hheld
    · exact Or.inr ((hfree _).mpr rfl)

/-- **An operation moves a few blocks**, and the others stay where they are. -/
theorem Partition.change {changed : Ptr → Prop} {s' : BufPool} {held' : Ptr → Prop}
    {free' : MemCap → List Ptr}
    (hcells : ∀ q, ¬ changed q → s'.heap.cells q = s.heap.cells q)
    (hheld : ∀ q, ¬ changed q → (held' q ↔ held q))
    (hfree : ∀ q, ¬ changed q → ∀ cap, q ∈ free' cap ↔ q ∈ free cap)
    (hchain : ∀ cap, Chain PoolBlock.next s'.heap (s'.pool cap) (free' cap))
    (hchanged : ∀ q, changed q → Placed s' held' free' q) : Partition s' held' free' := by
  apply partition_of_placed hchain
  intro q
  by_cases hq : changed q
  · exact hchanged q hq
  · have hplaced := hpart.placed q
    unfold Placed at hplaced ⊢
    simp only [hcells q hq, hheld q hq, hfree q hq]
    exact hplaced

omit hpart in
/-- A list that gains or loses one block. -/
theorem mem_update_of_ne {cap : MemCap} {l : List Ptr} {p q : Ptr} (hqp : q ≠ p)
    (hl : q ≠ p → (q ∈ l ↔ q ∈ free cap)) (cap' : MemCap) :
    q ∈ Function.update free cap l cap' ↔ q ∈ free cap' := by
  by_cases hcap : cap' = cap
  · rw [hcap, Function.update_self]
    exact hl hqp
  · rw [Function.update_of_ne hcap]

/-- Writing to a block that is held. -/
theorem Partition.setBuf {p : Ptr} (hp : held p) (b : IoBuf) :
    Partition (s.setBuf p b) held free := by
  have hother : ∀ q, q ≠ p → (s.setBuf p b).heap.cells q = s.heap.cells q :=
    fun q hqp => ObjectHeap.modify_other hqp _
  refine hpart.change hother (fun _ _ => Iff.rfl) (fun _ _ _ => Iff.rfl) ?_ ?_
  · intro cap
    apply (hpart.chain cap).frame
    intro q hq
    apply hother
    rintro rfl
    exact hpart.apart cap q hq hp
  · rintro q rfl
    obtain ⟨block, hcell, hnext⟩ := hpart.held_block q hp
    have hself : (s.setBuf q b).heap.cells q = some { block with buf := b } := by
      rw [BufPool.setBuf, ObjectHeap.modify_self, hcell]
      rfl
    exact placed_held hself hp hnext fun cap hin => hpart.apart cap q hin hp

/-- Giving back a block that is held. -/
theorem Partition.revert {p : Ptr} (hp : held p) :
    ∃ s', s.revert p = Except.ok s' ∧ (∀ q, q ≠ p → s'.heap.cells q = s.heap.cells q) ∧
      ∃ free', Partition s' (fun q => held q ∧ q ≠ p) free' := by
  obtain ⟨block, hcell, -⟩ := hpart.held_block p hp
  have hother : ∀ q, q ≠ p → (s.heap.modify p fun block : PoolBlock =>
      ⟨block.buf.clear, s.pool block.buf.capacity⟩).cells q = s.heap.cells q :=
    fun q hqp => ObjectHeap.modify_other hqp _
  have hself : (s.heap.modify p fun block : PoolBlock =>
      ⟨block.buf.clear, s.pool block.buf.capacity⟩).cells p =
        some ⟨block.buf.clear, s.pool block.buf.capacity⟩ := by
    rw [ObjectHeap.modify_self, hcell]
    rfl
  have hrevert : s.revert p = Except.ok { s with
      heap := s.heap.modify p fun block => ⟨block.buf.clear, s.pool block.buf.capacity⟩
      pool := Function.update s.pool block.buf.capacity (some p) } := by
    simp only [BufPool.revert, hcell]
  -- the block is the new front of the list of its capacity
  refine ⟨_, hrevert, hother,
    Function.update free block.buf.capacity (p :: free block.buf.capacity), ?_⟩
  refine hpart.change hother (fun q hq => and_iff_left hq) ?_ ?_ ?_
  · intro q hq
    apply mem_update_of_ne hq
    intro hqp
    rw [List.mem_cons, or_iff_right hqp]
  · intro cap
    have hrest : Chain PoolBlock.next (s.heap.modify p fun block : PoolBlock =>
        ⟨block.buf.clear, s.pool block.buf.capacity⟩) (s.pool cap) (free cap) := by
      apply (hpart.chain cap).frame
      intro q hq
      apply hother
      rintro rfl
      exact hpart.apart cap q hq hp
    by_cases hcap : cap = block.buf.capacity
    · rw [hcap] at hrest ⊢
      simp only [Function.update_self]
      exact Chain.cons hself hrest
    · simp only [Function.update_of_ne hcap]
      exact hrest
  · rintro q rfl
    refine placed_free hself (fun h => h.2 rfl) ⟨rfl, rfl⟩ ?_
    intro cap
    by_cases hcap : cap = block.buf.capacity
    · rw [hcap, Function.update_self]
      exact iff_of_true List.mem_cons_self rfl
    · rw [Function.update_of_ne hcap]
      exact iff_of_false (fun hin => hpart.apart cap q hin hp) hcap

/-- What `alloc_buf` hands out: an empty block of the size class, that nobody held. -/
structure Allocated (s s' : BufPool) (held : Ptr → Prop) (index : MemCap) (p : Ptr) : Prop where
  block : ∃ stale, s'.heap.cells p = some ⟨IoBuf.create index stale, none⟩
  was_free : ¬ held p
  frame : ∀ q, q ≠ p → s'.heap.cells q = s.heap.cells q
  partition : ∃ free', Partition s' (fun q => held q ∨ q = p) free'

/-- The front of a free list. -/
theorem Partition.take {index : MemCap} {target : Ptr} (hpool : s.pool index = some target) :
    ∃ block, s.heap.cells target = some block ∧
      Allocated s
        { s with
          heap := s.heap.modify target fun block => { block with next := none }
          pool := Function.update s.pool index block.next } held index target := by
  have hchain := hpart.chain index
  rw [hpool] at hchain
  obtain ⟨block, rest, hcell, hfree, hrest⟩ := hchain.head_cons
  have hfront : target ∈ free index := by
    rw [hfree]
    exact List.mem_cons_self
  obtain ⟨block', hcell', hcap, hhead, hlength⟩ := hpart.sized index target hfront
  cases hcell.symm.trans hcell'
  have hnotin : target ∉ rest := by
    have hnodup := (hpart.chain index).nodup
    rw [hfree] at hnodup
    exact (List.nodup_cons.mp hnodup).1
  have helsewhere : ∀ cap, cap ≠ index → target ∉ free cap :=
    fun cap hne hin => hne ((hpart.cap_eq hcell hin).symm.trans hcap)
  have hother : ∀ q, q ≠ target → (s.heap.modify target fun block : PoolBlock =>
      { block with next := none }).cells q = s.heap.cells q :=
    fun q hqp => ObjectHeap.modify_other hqp _
  have hself : (s.heap.modify target fun block : PoolBlock =>
      { block with next := none }).cells target = some { block with next := none } := by
    rw [ObjectHeap.modify_self, hcell]
    rfl
  refine ⟨block, hcell, ?_, hpart.apart index target hfront, hother,
    Function.update free index rest, ?_⟩
  · refine ⟨block.buf.data, hself.trans ?_⟩
    rw [← hcap, ← IoBuf.eq_create hhead hlength]
  refine hpart.change hother (fun q hq => or_iff_left hq) ?_ ?_ ?_
  · intro q hq
    apply mem_update_of_ne hq
    intro hqp
    rw [hfree, List.mem_cons, or_iff_right hqp]
  · intro cap
    by_cases hcapi : cap = index
    · rw [hcapi]
      simp only [Function.update_self]
      apply hrest.frame
      intro q hq
      apply hother
      rintro rfl
      exact hnotin hq
    · simp only [Function.update_of_ne hcapi]
      apply (hpart.chain cap).frame
      intro q hq
      apply hother
      rintro rfl
      exact helsewhere cap hcapi hq
  · rintro q rfl
    apply placed_held hself (Or.inr rfl) rfl
    intro cap
    by_cases hcapi : cap = index
    · rw [hcapi, Function.update_self]
      exact hnotin
    · rw [Function.update_of_ne hcapi]
      exact helsewhere cap hcapi

/-- A block that is new. -/
theorem Partition.newBuf (garbage : Ptr → List Byte) (index : MemCap) (totalMem : Nat) :
    Allocated s { s.newBuf garbage index with totalMem := totalMem } held index s.heap.next := by
  have hother : ∀ q, q ≠ s.heap.next →
      (s.newBuf garbage index).heap.cells q = s.heap.cells q :=
    fun q hqp => Function.update_of_ne hqp _ _
  have hself : (s.newBuf garbage index).heap.cells s.heap.next =
      some ⟨IoBuf.create index (garbage s.heap.next), none⟩ := ObjectHeap.alloc_self _ _
  refine ⟨⟨_, hself⟩, hpart.not_held_next, hother, free, ?_⟩
  refine hpart.change hother (fun q hq => or_iff_left hq) (fun _ _ _ => Iff.rfl) ?_ ?_
  · intro cap
    apply (hpart.chain cap).frame
    intro q hq
    apply hother
    rintro rfl
    exact hpart.not_free_next cap hq
  · rintro q rfl
    exact placed_held hself (Or.inr rfl) rfl hpart.not_free_next

/-- **`alloc_buf`**: NULL and no change past the largest size class; below it the exit, or an
    empty block of the smallest class that holds as much. -/
theorem Partition.allocBuf (garbage : Ptr → List Byte) (n : Int) :
    match memIndex n with
    | none => s.allocBuf garbage n = Except.ok (none, s)
    | some index =>
      s.allocBuf garbage n = Except.error PoolFault.memLimit ∨
        ∃ p s', s.allocBuf garbage n = Except.ok (some p, s') ∧ Allocated s s' held index p := by
  cases hindex : memIndex n with
  | none => simp only [BufPool.allocBuf, hindex]
  | some index =>
    simp only [BufPool.allocBuf, hindex]
    cases hpool : s.pool index with
    | none =>
      simp only
      split
      · exact Or.inl rfl
      · exact Or.inr ⟨_, _, rfl, hpart.newBuf garbage index _⟩
    | some target =>
      obtain ⟨block, hcell, halloc⟩ := hpart.take hpool
      simp only [hcell]
      exact Or.inr ⟨_, _, rfl, halloc⟩

/-! ## The constructor -/

/-- The loop links one more block behind the last one. -/
theorem Partition.link (garbage : Ptr → List Byte) {cap : MemCap} {l : List Ptr} {prev : Ptr}
    (hlist : free cap = l ++ [prev]) :
    Partition
      { s.newBuf garbage cap with
        heap := (s.newBuf garbage cap).heap.modify prev fun block =>
          { block with next := some s.heap.next } }
      held (Function.update free cap (l ++ [prev] ++ [s.heap.next])) := by
  have hprev : prev ∈ free cap := by
    rw [hlist]
    exact List.mem_append_right _ List.mem_cons_self
  obtain ⟨last, hlast, hcap, hempty⟩ := hpart.sized cap prev hprev
  have hne : s.heap.next ≠ prev := (Nat.ne_of_lt (ObjectHeap.lt_next hlast)).symm
  -- two blocks change: the one that is new, and the last one
  have hnew : ((s.newBuf garbage cap).heap.modify prev fun block =>
      { block with next := some s.heap.next }).cells s.heap.next =
        some ⟨IoBuf.create cap (garbage s.heap.next), none⟩ := by
    rw [ObjectHeap.modify_other hne]
    exact ObjectHeap.alloc_self _ _
  have hself : ((s.newBuf garbage cap).heap.modify prev fun block =>
      { block with next := some s.heap.next }).cells prev =
        some { last with next := some s.heap.next } := by
    have halloc : (s.newBuf garbage cap).heap.cells prev = some last :=
      ObjectHeap.alloc_live hlast _
    rw [ObjectHeap.modify_self, halloc]
    rfl
  have hother : ∀ q, ¬ (q = s.heap.next ∨ q = prev) →
      ((s.newBuf garbage cap).heap.modify prev fun block =>
        { block with next := some s.heap.next }).cells q = s.heap.cells q := by
    intro q hq
    rw [ObjectHeap.modify_other fun h => hq (Or.inr h)]
    exact Function.update_of_ne (fun h => hq (Or.inl h)) _ _
  have hkept : ∀ q, q ≠ s.heap.next → ∀ cap',
      q ∈ Function.update free cap (l ++ [prev] ++ [s.heap.next]) cap' ↔ q ∈ free cap' := by
    intro q hq
    apply mem_update_of_ne hq
    intro hqn
    rw [hlist, List.mem_append, List.mem_singleton, or_iff_left hqn]
  refine hpart.change hother (fun _ _ => Iff.rfl) (fun q hq => hkept q fun h => hq (Or.inl h))
    ?_ ?_
  · intro cap'
    by_cases hcap' : cap' = cap
    · rw [hcap']
      simp only [Function.update_self]
      have hchain := hpart.chain cap
      rw [hlist] at hchain
      refine hchain.snoc ?_ hself rfl hnew rfl
      intro q hq
      apply hother
      rintro (rfl | rfl)
      · apply hpart.not_free_next cap
        rw [hlist]
        exact List.mem_append_left _ hq
      · exact (List.nodup_append.mp hchain.nodup).2.2 q hq q List.mem_cons_self rfl
    · simp only [Function.update_of_ne hcap']
      apply (hpart.chain cap').frame
      intro q hq
      apply hother
      rintro (rfl | rfl)
      · exact hpart.not_free_next cap' hq
      · exact hcap' ((hpart.cap_eq hlast hq).symm.trans hcap)
  · rintro q (rfl | rfl)
    · refine placed_free hnew hpart.not_held_next ⟨rfl, rfl⟩ ?_
      intro cap'
      by_cases hcap' : cap' = cap
      · rw [hcap', Function.update_self]
        exact iff_of_true (List.mem_append_right _ List.mem_cons_self) rfl
      · rw [Function.update_of_ne hcap']
        exact iff_of_false (hpart.not_free_next cap') hcap'
    · refine placed_free hself (hpart.apart cap q hprev) hempty ?_
      intro cap'
      rw [hkept q hne.symm cap']
      constructor
      · exact fun hin => (hpart.cap_eq hlast hin).symm
      · rintro rfl
        rw [hcap]
        exact hprev

theorem Partition.linkBufs (garbage : Ptr → List Byte) {cap : MemCap} (num : Nat) {l : List Ptr}
    {prev : Ptr} (hlist : free cap = l ++ [prev]) :
    ∃ free', Partition (linkBufs garbage cap num prev s) held free' := by
  induction num generalizing s free l prev with
  | zero => exact ⟨free, hpart⟩
  | succ num ih =>
    exact ih (hpart.link garbage hlist) (Function.update_self _ _ _)

/-- The first block of a list. -/
theorem Partition.first (garbage : Ptr → List Byte) {cap : MemCap} (hempty : free cap = []) :
    Partition
      { s.newBuf garbage cap with pool := Function.update s.pool cap (some s.heap.next) }
      held (Function.update free cap [s.heap.next]) := by
  have hnew : (s.newBuf garbage cap).heap.cells s.heap.next =
      some ⟨IoBuf.create cap (garbage s.heap.next), none⟩ := ObjectHeap.alloc_self _ _
  have hother : ∀ q, q ≠ s.heap.next →
      (s.newBuf garbage cap).heap.cells q = s.heap.cells q :=
    fun q hqp => Function.update_of_ne hqp _ _
  refine hpart.change hother (fun _ _ => Iff.rfl) ?_ ?_ ?_
  · intro q hq
    apply mem_update_of_ne hq
    intro hqn
    rw [hempty, List.mem_singleton]
    exact iff_of_false hqn List.not_mem_nil
  · intro cap'
    by_cases hcap' : cap' = cap
    · rw [hcap']
      simp only [Function.update_self]
      exact Chain.cons hnew Chain.nil
    · simp only [Function.update_of_ne hcap']
      apply (hpart.chain cap').frame
      intro q hq
      apply hother
      rintro rfl
      exact hpart.not_free_next cap' hq
  · rintro q rfl
    refine placed_free hnew hpart.not_held_next ⟨rfl, rfl⟩ ?_
    intro cap'
    by_cases hcap' : cap' = cap
    · rw [hcap', Function.update_self]
      exact iff_of_true List.mem_cons_self rfl
    · rw [Function.update_of_ne hcap']
      exact iff_of_false (hpart.not_free_next cap') hcap'

/-- A list for a size class that has none. -/
theorem Partition.makeIoBufList (garbage : Ptr → List Byte) {cap : MemCap} (num : Nat)
    (hpool : s.pool cap = none) :
    ∃ free', Partition (makeIoBufList garbage cap num s) held free' := by
  have hempty : free cap = [] := by
    have hchain := hpart.chain cap
    rw [hpool] at hchain
    exact hchain.unique Chain.nil
  obtain ⟨free', hlinked⟩ := (hpart.first garbage hempty).linkBufs garbage num (l := [])
    (Function.update_self _ _ _)
  exact ⟨free', hlinked.chain, hlinked.sized, hlinked.held_block, hlinked.apart, hlinked.covered⟩

end Partition

theorem pool_linkBufs (garbage : Ptr → List Byte) (cap : MemCap) (num : Nat) (prev : Ptr)
    (s : BufPool) : (linkBufs garbage cap num prev s).pool = s.pool := by
  induction num generalizing prev s with
  | zero => rfl
  | succ num ih => exact ih _ _

/-- Making one list leaves the others as they are. -/
theorem makeIoBufList_other (garbage : Ptr → List Byte) {cap other : MemCap} (num : Nat)
    (hne : other ≠ cap) {s : BufPool} (hnone : s.pool other = none) :
    (makeIoBufList garbage cap num s).pool other = none := by
  have hpool : (makeIoBufList garbage cap num s).pool =
      Function.update s.pool cap (some s.heap.next) := pool_linkBufs garbage cap num _ _
  rw [hpool, Function.update_of_ne hne]
  exact hnone

/-- Lists for size classes that have none. -/
theorem partition_lists (garbage : Ptr → List Byte) (lists : List (MemCap × Nat)) {s : BufPool}
    {held : Ptr → Prop} {free : MemCap → List Ptr} (hpart : Partition s held free)
    (hnodup : (lists.map Prod.fst).Nodup) (hnone : ∀ cap ∈ lists.map Prod.fst, s.pool cap = none) :
    ∃ free', Partition (lists.foldl (fun s list => makeIoBufList garbage list.1 list.2 s) s) held
      free' := by
  induction lists generalizing s free with
  | nil => exact ⟨free, hpart⟩
  | cons list lists ih =>
    obtain ⟨hnotin, hrest⟩ := List.nodup_cons.mp hnodup
    obtain ⟨free', hmade⟩ := hpart.makeIoBufList garbage list.2 (hnone _ List.mem_cons_self)
    apply ih hmade hrest
    intro cap hcap
    apply makeIoBufList_other garbage list.2 _ (hnone cap (List.mem_cons_of_mem _ hcap))
    rintro rfl
    exact hnotin hcap

/-- The constructor leaves all blocks free. -/
theorem partition_create (garbage : Ptr → List Byte) :
    ∃ free, Partition (create garbage) (fun _ => False) free :=
  partition_lists garbage bufLists partition_start (by decide) (fun _ _ => rfl)

end BufPool

end LarsSystem.Reactor
