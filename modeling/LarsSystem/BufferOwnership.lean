import LarsSystem.PoolPartition
import LarsSystem.Transition

/-!
# Every block has one owner

Every operation of one buffer keeps the division of the blocks into free ones and
owned ones, whatever the other buffers own, and leaves their blocks as they are.
What it does to its own block is what `ReactorBuf` says, with some earlier
contents of the block that the pool hands out. No operation follows a pointer to
no block.
-/

namespace LarsSystem.Reactor

open LarsSystem.LinkedChain
open LarsSystem.MachineWord
open LarsSystem.Transition

open BufPool

theorem BufPool.Partition.congr {s : BufPool} {held held' : Ptr → Prop} {free : MemCap → List Ptr}
    (hpart : Partition s held free) (hiff : ∀ p, held p ↔ held' p) : Partition s held' free := by
  have heq : held = held' := funext fun p => propext (hiff p)
  rwa [← heq]

theorem ok_bind {ε β γ : Type} (b : β) (f : β → Except ε γ) : (Except.ok b >>= f) = f b := rfl

theorem error_bind {ε β γ : Type} (e : ε) (f : β → Except ε γ) :
    (Except.error e >>= f) = Except.error e := rfl

namespace PooledBuf

/-! ## One buffer among others -/

/-- The blocks of the pool are free, this buffer's, or those of others. -/
def Owns (others : Ptr → Prop) (x : PooledBuf) : Prop :=
  (∀ p, x.buf = some p → ¬ others p) ∧
    ∃ free, Partition x.pool (fun p => others p ∨ x.buf = some p) free

/-- An operation of this buffer does not concern the others. -/
structure Kept (others : Ptr → Prop) (x x' : PooledBuf) : Prop where
  owns : x'.Owns others
  frame : ∀ p, others p → x'.pool.heap.cells p = x.pool.heap.cells p

theorem Kept.refl {others : Ptr → Prop} {x : PooledBuf} (hown : x.Owns others) :
    Kept others x x :=
  ⟨hown, fun _ _ => rfl⟩

theorem Kept.trans {others : Ptr → Prop} {x y z : PooledBuf} (first : Kept others x y)
    (second : Kept others y z) : Kept others x z :=
  ⟨second.owns, fun p hp => (second.frame p hp).trans (first.frame p hp)⟩

section Blocks

variable {others : Ptr → Prop} {pool : BufPool} {p : Ptr}

/-- The block of a buffer can as well be counted among those of others. -/
theorem owns_some_iff :
    Owns others ⟨pool, some p⟩ ↔ ¬ others p ∧ Owns (fun q => others q ∨ q = p) ⟨pool, none⟩ := by
  have hsame : ∀ q, (others q ∨ some p = some q) ↔ ((others q ∨ q = p) ∨ none = some q) := by
    intro q
    simp [eq_comm]
  constructor
  · rintro ⟨hnot, free, hpart⟩
    exact ⟨hnot p rfl, fun q hq => (nomatch hq), free, hpart.congr hsame⟩
  · rintro ⟨hnot, -, free, hpart⟩
    refine ⟨?_, free, hpart.congr fun q => (hsame q).symm⟩
    rintro q ⟨⟩
    exact hnot

/-- Two blocks of which one is this buffer's and the other counted among those of others. -/
theorem Owns.swap {q : Ptr} (hp : ¬ others p)
    (hown : Owns (fun r => others r ∨ r = p) ⟨pool, some q⟩) :
    Owns (fun r => others r ∨ r = q) ⟨pool, some p⟩ := by
  obtain ⟨hq, -, free, hpart⟩ := owns_some_iff.mp hown
  refine owns_some_iff.mpr ⟨?_, fun r hr => (nomatch hr), free, hpart.congr ?_⟩
  · rintro (hother | rfl)
    · exact hp hother
    · exact hq (Or.inr rfl)
  · intro r
    constructor <;> rintro (((hr | hr) | hr) | hr)
    · exact Or.inl (Or.inl (Or.inl hr))
    · exact Or.inl (Or.inr hr)
    · exact Or.inl (Or.inl (Or.inr hr))
    · exact Or.inr hr
    · exact Or.inl (Or.inl (Or.inl hr))
    · exact Or.inl (Or.inr hr)
    · exact Or.inl (Or.inl (Or.inr hr))
    · exact Or.inr hr

theorem Owns.block (hown : Owns others ⟨pool, some p⟩) :
    ∃ block, pool.heap.cells p = some block ∧ pool.deref p = Except.ok block.buf ∧
      view ⟨pool, some p⟩ = ⟨some block.buf⟩ := by
  obtain ⟨-, free, hpart⟩ := hown
  obtain ⟨block, hheld, -⟩ := hpart.held_block p (Or.inr rfl)
  have hcell : pool.heap.cells p = some block := hheld
  refine ⟨block, hcell, by simp only [deref, hcell], ?_⟩
  simp only [view, Option.bind_some, hcell, Option.map_some]

/-- An `io_buf` operation on the block of the buffer. -/
theorem Owns.setBuf (hown : Owns others ⟨pool, some p⟩) (b : IoBuf) :
    Kept others ⟨pool, some p⟩ ⟨pool.setBuf p b, some p⟩ ∧
      view ⟨pool.setBuf p b, some p⟩ = ⟨some b⟩ := by
  obtain ⟨block, hcell, -, -⟩ := hown.block
  obtain ⟨hnot, free, hpart⟩ := hown
  have hself : (pool.setBuf p b).heap.cells p = some { block with buf := b } := by
    rw [BufPool.setBuf, ObjectHeap.modify_self, hcell]
    rfl
  refine ⟨⟨⟨hnot, free, hpart.setBuf (Or.inr rfl) b⟩, ?_⟩, ?_⟩
  · intro q hq
    apply ObjectHeap.modify_other
    rintro rfl
    exact hnot q rfl hq
  · simp only [view, Option.bind_some, hself, Option.map_some]

/-- Handing the block back. -/
theorem Owns.revert (hown : Owns others ⟨pool, some p⟩) :
    ∃ pool', pool.revert p = Except.ok pool' ∧ Kept others ⟨pool, some p⟩ ⟨pool', none⟩ := by
  obtain ⟨hnot, free, hpart⟩ := hown
  obtain ⟨pool', hrevert, hframe, free', hpart'⟩ := hpart.revert (p := p) (Or.inr rfl)
  refine ⟨pool', hrevert, ⟨⟨fun q hq => (nomatch hq), free', hpart'.congr ?_⟩, ?_⟩⟩
  · intro q
    constructor
    · rintro ⟨hq | hq, hqp⟩
      · exact Or.inl hq
      · exact absurd (Option.some.inj hq).symm hqp
    · rintro (hq | hq)
      · refine ⟨Or.inl hq, ?_⟩
        rintro rfl
        exact hnot q rfl hq
      · cases hq
  · intro q hq
    apply hframe
    rintro rfl
    exact hnot q rfl hq

/-- Asking for a block. -/
theorem Owns.allocBuf (garbage : Ptr → List Byte) (hown : Owns others ⟨pool, none⟩) (n : Int) :
    pool.allocBuf garbage n = Except.error PoolFault.memLimit ∨
      (pool.allocBuf garbage n = Except.ok (none, pool) ∧
        ∀ stale, Reactor.allocBuf stale n = none) ∨
      ∃ q pool' stale b, pool.allocBuf garbage n = Except.ok (some q, pool') ∧
        Reactor.allocBuf stale n = some b ∧ Kept others ⟨pool, none⟩ ⟨pool', some q⟩ ∧
          view ⟨pool', some q⟩ = ⟨some b⟩ := by
  obtain ⟨-, free, hpart⟩ := hown
  have halloc := hpart.allocBuf garbage n
  cases hindex : memIndex n with
  | none =>
    rw [hindex] at halloc
    exact Or.inr (Or.inl ⟨halloc, fun stale => by rw [allocBuf_eq, hindex]; rfl⟩)
  | some index =>
    rw [hindex] at halloc
    rcases halloc with hlimit | ⟨q, pool', hok, hallocated⟩
    · exact Or.inl hlimit
    · obtain ⟨stale, hblock⟩ := hallocated.block
      obtain ⟨free', hpart'⟩ := hallocated.partition
      have hnot : ¬ others q := fun hq => hallocated.was_free (Or.inl hq)
      refine Or.inr (Or.inr ⟨q, pool', stale, IoBuf.create index stale, hok,
        by rw [allocBuf_eq, hindex]; rfl, ⟨⟨?_, free', hpart'.congr ?_⟩, ?_⟩, ?_⟩)
      · rintro r ⟨⟩
        exact hnot
      · intro r
        simp [eq_comm]
      · intro r hr
        apply hallocated.frame
        rintro rfl
        exact hnot hr
      · simp only [view, Option.bind_some, hblock, Option.map_some]

end Blocks

/-! ## The operations

Each does to its own block what the operation of `ReactorBuf` does to the buffer,
and fails where that fails or at the memory limit. -/

/-- How an operation may fail. -/
def Fails {β : Type} (abs : List Byte → Except Fault β) : PoolFault → Prop
  | .buffer fault => ∃ stale, abs stale = Except.error fault
  | .memLimit => True
  | .dangling => False

section Operations

variable {others : Ptr → Prop} {x : PooledBuf} (hown : x.Owns others)
include hown

theorem pop_kept (len : Nat) :
    Lands (fun x' => Kept others x x' ∧ x.view.pop len = Except.ok x'.view)
      (Fails fun _ => x.view.pop len) (x.pop len) := by
  obtain ⟨pool, _ | p⟩ := x
  · exact ⟨[], rfl⟩
  · obtain ⟨block, hcell, hderef, hview⟩ := hown.block
    simp only [PooledBuf.pop, hderef, hview, ReactorBuf.pop, ok_bind]
    by_cases hlen : len ≤ block.buf.length
    · simp only [hlen, dif_pos]
      obtain ⟨hkept, hview'⟩ := hown.setBuf (block.buf.pop len hlen)
      by_cases hzero : (block.buf.pop len hlen).length = 0
      · obtain ⟨pool', hrevert, hback⟩ := hkept.owns.revert
        simp only [if_pos hzero, hrevert, ok_bind]
        exact ⟨hkept.trans hback, rfl⟩
      · simp only [if_neg hzero]
        exact ⟨hkept, by rw [hview']⟩
    · simp only [hlen, dif_neg, not_false_eq_true]
      exact ⟨[], rfl⟩

theorem clear_kept :
    Lands (fun x' => Kept others x x' ∧ x'.view = x.view.clear) (fun _ => False) x.clear := by
  obtain ⟨pool, _ | p⟩ := x
  · exact ⟨Kept.refl hown, rfl⟩
  · obtain ⟨pool', hrevert, hback⟩ := hown.revert
    simp only [PooledBuf.clear, hrevert, ok_bind]
    exact ⟨hback, rfl⟩

theorem adjust_kept :
    Lands (fun x' => Kept others x x' ∧ x'.view = x.view.adjust) (fun _ => False) x.adjust := by
  obtain ⟨pool, _ | p⟩ := x
  · exact ⟨Kept.refl hown, rfl⟩
  · obtain ⟨block, hcell, hderef, hview⟩ := hown.block
    obtain ⟨hkept, hview'⟩ := hown.setBuf block.buf.adjust
    simp only [PooledBuf.adjust, hderef, ok_bind]
    exact ⟨hkept, by rw [hview', hview]; rfl⟩

/-- A block for more bytes: the same, or another one that holds the old bytes. -/
theorem growFor_kept (garbage : Ptr → List Byte) (asserted : Fault) (count : Nat) :
    Lands
      (fun grown =>
        match grown with
        | none => ∃ stale, x.view.growFor asserted stale count = Except.ok none
        | some (p, pool) => Kept others x ⟨pool, some p⟩ ∧ ∃ stale b,
            x.view.growFor asserted stale count = Except.ok (some b) ∧
              view ⟨pool, some p⟩ = ⟨some b⟩)
      (Fails fun stale => x.view.growFor asserted stale count)
      (x.growFor garbage asserted count) := by
  obtain ⟨pool, _ | p⟩ := x
  · have hview : view ⟨pool, none⟩ = ⟨none⟩ := rfl
    simp only [PooledBuf.growFor, hview, ReactorBuf.growFor]
    rcases hown.allocBuf garbage count with hlimit | ⟨hnull, hrefused⟩ |
      ⟨q, pool', stale, b, hok, halloc, hkept, hview'⟩
    · simp only [hlimit, error_bind]
      trivial
    · simp only [hnull, ok_bind]
      exact ⟨[], by rw [hrefused]⟩
    · simp only [hok, ok_bind]
      exact ⟨hkept, stale, b, by rw [halloc], hview'⟩
  · obtain ⟨block, hcell, hderef, hview⟩ := hown.block
    simp only [PooledBuf.growFor, hderef, hview, ReactorBuf.growFor, ok_bind]
    by_cases hhead : block.buf.head ≠ 0
    · simp only [if_pos hhead]
      exact ⟨[], rfl⟩
    · simp only [if_neg hhead]
      by_cases hroom : block.buf.capacity.bytes - block.buf.length < count
      · simp only [if_pos hroom]
        -- the old block is still there when the new one is asked for
        have hnot := (owns_some_iff.mp hown).1
        have hlent := (owns_some_iff.mp hown).2
        generalize wrap32 ((block.buf.length : Int) + (count : Int)) = size
        rcases hlent.allocBuf garbage size with hlimit |
          ⟨hnull, hrefused⟩ | ⟨q, pool', stale, b, hok, halloc, hkept, hview'⟩
        · simp only [hlimit, error_bind]
          trivial
        · simp only [hnull, ok_bind]
          exact ⟨[], by rw [hrefused]⟩
        · obtain ⟨newBlock, hcell', hderef', hview''⟩ := hkept.owns.block
          have hnew : newBlock.buf = b := by
            rw [hview'] at hview''
            simpa using hview''.symm
          simp only [hok, hderef', hnew, ok_bind]
          cases hcopy : b.copy block.buf with
          | error fault => exact ⟨stale, by simp only [halloc, hcopy]⟩
          | ok copied =>
            obtain ⟨hput, hviewPut⟩ := hkept.owns.setBuf copied
            obtain ⟨pool'', hrevert, hback⟩ := (Owns.swap hnot hput.owns).revert
            simp only [hrevert, ok_bind]
            have hq : ¬ others q := fun hq => (hkept.owns.1 q rfl) (Or.inl hq)
            refine ⟨⟨owns_some_iff.mpr ⟨hq, hback.owns⟩, ?_⟩, stale, copied,
              by simp only [halloc, hcopy], ?_⟩
            · intro r hr
              exact (hback.frame r (Or.inl hr)).trans
                ((hput.frame r (Or.inl hr)).trans (hkept.frame r (Or.inl hr)))
            · have hsame : pool''.heap.cells q = (pool'.setBuf q copied).heap.cells q :=
                hback.frame q (Or.inr rfl)
              rw [← hviewPut]
              simp only [view, Option.bind_some, hsame]
      · simp only [if_neg hroom]
        exact ⟨Kept.refl hown, [], block.buf, rfl, hview⟩

/-- The ways in which the room for more bytes is found, or not. -/
theorem growFor_outcomes (garbage : Ptr → List Byte) (asserted : Fault) (count : Nat) :
    x.growFor garbage asserted count = Except.error .memLimit ∨
      (∃ fault stale, x.growFor garbage asserted count = Except.error (.buffer fault) ∧
        x.view.growFor asserted stale count = Except.error fault) ∨
      (∃ stale, x.growFor garbage asserted count = Except.ok none ∧
        x.view.growFor asserted stale count = Except.ok none) ∨
      ∃ p pool stale b, x.growFor garbage asserted count = Except.ok (some (p, pool)) ∧
        x.view.growFor asserted stale count = Except.ok (some b) ∧
        Kept others x ⟨pool, some p⟩ ∧ pool.deref p = Except.ok b ∧
        view ⟨pool, some p⟩ = ⟨some b⟩ := by
  have hgrown := growFor_kept hown garbage asserted count
  rcases hgrow : x.growFor garbage asserted count with (fault | - | -) | (- | ⟨p, pool⟩)
  · rw [hgrow] at hgrown
    obtain ⟨stale, herror⟩ := hgrown
    exact Or.inr (Or.inl ⟨fault, stale, rfl, herror⟩)
  · exact Or.inl rfl
  · rw [hgrow] at hgrown
    exact hgrown.elim
  · rw [hgrow] at hgrown
    obtain ⟨stale, hnone⟩ := hgrown
    exact Or.inr (Or.inr (Or.inl ⟨stale, rfl, hnone⟩))
  · rw [hgrow] at hgrown
    obtain ⟨hkept, stale, b, hsome, hview⟩ := hgrown
    obtain ⟨block, -, hderef, hview'⟩ := hkept.owns.block
    have hblock : block.buf = b := by
      rw [hview] at hview'
      simpa using hview'.symm
    rw [hblock] at hderef
    exact Or.inr (Or.inr (Or.inr ⟨p, pool, stale, b, rfl, hsome, hkept, hderef, hview⟩))

theorem sendData_kept (garbage : Ptr → List Byte) (bytes : List Byte) :
    Lands
      (fun out => Kept others x out.2 ∧
        ∃ stale, x.view.sendData stale bytes = Except.ok (out.1, out.2.view))
      (Fails fun stale => x.view.sendData stale bytes) (x.sendData garbage bytes) := by
  simp only [PooledBuf.sendData, ReactorBuf.sendData]
  rcases growFor_outcomes hown garbage Fault.sendAssert bytes.length with
    hlimit | ⟨fault, stale, hgrow, herror⟩ | ⟨stale, hgrow, hnone⟩ |
      ⟨p, pool, stale, b, hgrow, hsome, hkept, hderef, hview⟩
  · simp only [hlimit, error_bind]
    trivial
  · simp only [hgrow, error_bind]
    exact ⟨stale, by simp only [herror]⟩
  · simp only [hgrow, ok_bind]
    exact ⟨Kept.refl hown, stale, by simp only [hnone]⟩
  · simp only [hgrow, hderef, ok_bind]
    cases happend : b.append bytes with
    | error fault => exact ⟨stale, by simp only [hsome, happend]⟩
    | ok b' =>
      obtain ⟨hput, hviewPut⟩ := hkept.owns.setBuf b'
      exact ⟨hkept.trans hput, stale, by simp only [hsome, happend, hviewPut]⟩

theorem readData_kept (garbage : Ptr → List Byte) (fionread : Option Nat)
    (read : Option (List Byte)) :
    Lands
      (fun out => Kept others x out.2 ∧
        ∃ stale, x.view.readData ⟨fionread, read, stale⟩ = Except.ok (out.1, out.2.view))
      (Fails fun stale => x.view.readData ⟨fionread, read, stale⟩)
      (x.readData garbage fionread read) := by
  cases fionread with
  | none => exact ⟨Kept.refl hown, [], rfl⟩
  | some needRead =>
    simp only [PooledBuf.readData, ReactorBuf.readData]
    rcases growFor_outcomes hown garbage Fault.readAssert needRead with
      hlimit | ⟨fault, stale, hgrow, herror⟩ | ⟨stale, hgrow, hnone⟩ |
        ⟨p, pool, stale, b, hgrow, hsome, hkept, hderef, hview⟩
    · simp only [hlimit, error_bind]
      trivial
    · simp only [hgrow, error_bind]
      exact ⟨stale, by simp only [herror]⟩
    · simp only [hgrow, ok_bind]
      exact ⟨Kept.refl hown, stale, by simp only [hnone]⟩
    · simp only [hgrow, ok_bind]
      cases read with
      | none => exact ⟨hkept, stale, by simp only [hsome, ReactorBuf.fillFrom, hview]⟩
      | some bytes =>
        simp only [hderef, ok_bind]
        generalize hstored :
          bytes.take (if needRead = 0 then MemCap.m4K.bytes else needRead) = stored
        cases happend : b.append stored with
        | error fault =>
          exact ⟨stale, by simp only [hsome, ReactorBuf.fillFrom, hstored, happend]⟩
        | ok b' =>
          obtain ⟨hput, hviewPut⟩ := hkept.owns.setBuf b'
          by_cases hcount : 0 < stored.length ∧ needRead ≠ 0 ∧ stored.length ≠ needRead
          · simp only [if_pos hcount]
            exact ⟨stale, by simp only [hsome, ReactorBuf.fillFrom, hstored, happend,
              if_pos hcount]⟩
          · simp only [if_neg hcount]
            exact ⟨hkept.trans hput, stale,
              by simp only [hsome, ReactorBuf.fillFrom, hstored, happend, if_neg hcount,
                hviewPut]⟩

theorem write2fd_kept (result : WriteResult) :
    Lands
      (fun out => Kept others x out.2.2 ∧
        x.view.write2fd result = Except.ok (out.1, out.2.1, out.2.2.view))
      (Fails fun _ => x.view.write2fd result) (x.write2fd result) := by
  obtain ⟨pool, _ | p⟩ := x
  · exact ⟨[], rfl⟩
  · obtain ⟨block, hcell, hderef, hview⟩ := hown.block
    simp only [PooledBuf.write2fd, hderef, hview, ReactorBuf.write2fd, ok_bind]
    by_cases hhead : block.buf.head ≠ 0
    · simp only [if_pos hhead]
      exact ⟨[], rfl⟩
    · simp only [if_neg hhead]
      cases result with
      | error => exact ⟨Kept.refl hown, by rw [hview]⟩
      | again => exact ⟨Kept.refl hown, by rw [hview]⟩
      | took n =>
        obtain ⟨hput, hviewPut⟩ := hown.setBuf
          (block.buf.pop (min n block.buf.length) (Nat.min_le_right n block.buf.length)).adjust
        exact ⟨hput, by rw [hviewPut]⟩

end Operations

end PooledBuf

/-! ## All the buffers of a program -/

/-- The pool, and the block of each `reactor_buf`. -/
structure Buffers (R : Type) where
  pool : BufPool
  bufs : R → Option Ptr

/-- The operations of a buffer; a buffer without a block may also ask the pool for one, and
    hand it back with `clear`. -/
inductive BufferOp where
  | alloc (n : Int)
  | pop (len : Nat)
  | clear
  | adjust
  | readData (fionread : Option Nat) (read : Option (List Byte))
  | sendData (bytes : List Byte)
  | write2fd (result : WriteResult)

namespace Buffers

variable {R : Type}

def start (garbage : Ptr → List Byte) : Buffers R := ⟨BufPool.create garbage, fun _ => none⟩

/-- One operation of one buffer. -/
def apply (garbage : Ptr → List Byte) (x : PooledBuf) : BufferOp → Except PoolFault PooledBuf
  | .alloc n =>
    match x.buf with
    | none => (x.pool.allocBuf garbage n).map fun out => ⟨out.2, out.1⟩
    | some _ => Except.ok x
  | .pop len => x.pop len
  | .clear => x.clear
  | .adjust => x.adjust
  | .readData fionread read => (x.readData garbage fionread read).map Prod.snd
  | .sendData bytes => (x.sendData garbage bytes).map Prod.snd
  | .write2fd result => (x.write2fd result).map fun out => out.2.2

def buffer (s : Buffers R) (r : R) : PooledBuf := ⟨s.pool, s.bufs r⟩

/-- Every free list is finite, without repeats, and of blocks of its size class; every block
    is in one free list, or has one owner. -/
structure Owned (s : Buffers R) (free : MemCap → List Ptr) : Prop where
  chain : ∀ cap, Chain PoolBlock.next s.pool.heap (s.pool.pool cap) (free cap)
  nodup : ∀ cap, (free cap).Nodup
  sized : ∀ cap, ∀ p ∈ free cap, ∃ block, s.pool.heap.cells p = some block ∧
    block.buf.capacity = cap
  live : ∀ r p, s.bufs r = some p → ∃ block, s.pool.heap.cells p = some block
  once : ∀ p block, s.pool.heap.cells p = some block →
    ((∃! cap, p ∈ free cap) ∧ ∀ r, s.bufs r ≠ some p) ∨
      ((∃! r, s.bufs r = some p) ∧ ∀ cap, p ∉ free cap)

/-- What `alloc_buf(n)` gives in a state: NULL and the same pool past the largest size class;
    else, where it does not end the process, an empty block of the smallest class that holds
    `n` bytes, which no buffer owns. -/
def Allocates (garbage : Ptr → List Byte) (s : Buffers R) (n : Int) : Prop :=
  if maxBytes < n then s.pool.allocBuf garbage n = Except.ok (none, s.pool)
  else
    s.pool.allocBuf garbage n = Except.error PoolFault.memLimit ∨
      ∃ p pool' block, s.pool.allocBuf garbage n = Except.ok (some p, pool') ∧
        pool'.heap.cells p = some block ∧
        block.buf.head = 0 ∧ block.buf.length = 0 ∧ block.next = none ∧
        n ≤ block.buf.capacity.bytes ∧
        (∀ other : MemCap, n ≤ other.bytes → block.buf.capacity.bytes ≤ other.bytes) ∧
        ∀ r, s.bufs r ≠ some p

/-- The blocks of the pool are free or owned, and no two buffers own the same. -/
def Inv (s : Buffers R) : Prop :=
  (∀ r r' p, s.bufs r = some p → s.bufs r' = some p → r = r') ∧
    ∃ free, Partition s.pool (fun p => ∃ r, s.bufs r = some p) free

theorem inv_start (garbage : Ptr → List Byte) : Inv (start garbage : Buffers R) := by
  obtain ⟨free, hpart⟩ := partition_create garbage
  refine ⟨fun r r' p hr => (nomatch hr), free, hpart.congr ?_⟩
  intro p
  simp [start]

theorem Inv.owned {s : Buffers R} (hinv : s.Inv) : ∃ free, s.Owned free := by
  obtain ⟨hunique, free, hpart⟩ := hinv
  refine ⟨free, hpart.chain, fun cap => (hpart.chain cap).nodup, ?_, ?_, ?_⟩
  · intro cap p hp
    obtain ⟨block, hcell, hcap, -⟩ := hpart.sized cap p hp
    exact ⟨block, hcell, hcap⟩
  · intro r p hr
    obtain ⟨block, hcell, -⟩ := hpart.held_block p ⟨r, hr⟩
    exact ⟨block, hcell⟩
  · intro p block hcell
    rcases hpart.covered p block hcell with ⟨r, hr⟩ | hfree
    · exact Or.inr ⟨⟨r, hr, fun r' hr' => hunique r' r p hr' hr⟩,
        fun cap hp => hpart.apart cap p hp ⟨r, hr⟩⟩
    · exact Or.inl ⟨⟨block.buf.capacity, hfree, fun cap hp => (hpart.cap_eq hcell hp).symm⟩,
        fun r hr => hpart.apart _ p hfree ⟨r, hr⟩⟩

theorem Inv.allocates {s : Buffers R} (garbage : Ptr → List Byte) (hinv : s.Inv) (n : Int) :
    s.Allocates garbage n := by
  obtain ⟨-, free, hpart⟩ := hinv
  have halloc := hpart.allocBuf garbage n
  unfold Allocates
  cases hindex : memIndex n with
  | none =>
    rw [hindex] at halloc
    rw [if_pos ((memIndex_eq_none_iff n).mp hindex)]
    exact halloc
  | some index =>
    have hsmall : ¬ maxBytes < n := by
      intro hlarge
      rw [(memIndex_eq_none_iff n).mpr hlarge] at hindex
      cases hindex
    rw [hindex] at halloc
    rw [if_neg hsmall]
    rcases halloc with hlimit | ⟨p, pool', hok, hallocated⟩
    · exact Or.inl hlimit
    · obtain ⟨stale, hblock⟩ := hallocated.block
      exact Or.inr ⟨p, pool', _, hok, hblock, rfl, rfl, rfl, memIndex_some hindex,
        fun other hother => memIndex_smallest hindex other hother,
        fun r hr => hallocated.was_free ⟨r, hr⟩⟩

/-- The same operation of a buffer that has its block to itself. -/
def viewApply (stale : List Byte) (r : ReactorBuf) : BufferOp → Except Fault ReactorBuf
  | .alloc n =>
    match r.buf with
    | none => Except.ok ⟨allocBuf stale n⟩
    | some _ => Except.ok r
  | .pop len => r.pop len
  | .clear => Except.ok r.clear
  | .adjust => Except.ok r.adjust
  | .readData fionread read => (r.readData ⟨fionread, read, stale⟩).map Prod.snd
  | .sendData bytes => (r.sendData stale bytes).map Prod.snd
  | .write2fd result => (r.write2fd result).map fun out => out.2.2

/-- An operation of one buffer is that of a buffer that has its block to itself, and does not
    concern the others. -/
def Apart (others : Ptr → Prop) (x : PooledBuf) (op : BufferOp) (x' : PooledBuf) : Prop :=
  x.Kept others x' ∧ ∃ stale, viewApply stale x.view op = Except.ok x'.view

theorem Fails.ne_dangling {β : Type} {abs : List Byte → Except Fault β} {fault : PoolFault}
    (hfails : PooledBuf.Fails abs fault) : fault ≠ PoolFault.dangling := by
  rintro rfl
  exact hfails

theorem apply_apart (garbage : Ptr → List Byte) {others : Ptr → Prop} {x : PooledBuf}
    (hown : x.Owns others) (op : BufferOp) :
    Lands (Apart others x op) (· ≠ PoolFault.dangling) (apply garbage x op) := by
  cases op with
  | alloc n =>
    obtain ⟨pool, _ | p⟩ := x
    · simp only [apply]
      rcases hown.allocBuf garbage n with hlimit | ⟨hnull, hrefused⟩ |
        ⟨q, pool', stale, b, hok, halloc, hkept, hview⟩
      · rw [hlimit]
        exact nofun
      · rw [hnull]
        refine ⟨PooledBuf.Kept.refl hown, [], ?_⟩
        simp only [viewApply, PooledBuf.view, Option.bind_none, hrefused]
      · rw [hok]
        refine ⟨hkept, stale, ?_⟩
        simp only [viewApply, PooledBuf.view, Option.bind_none, halloc]
        exact congrArg Except.ok hview.symm
    · obtain ⟨block, hcell, hderef, hview⟩ := hown.block
      refine ⟨PooledBuf.Kept.refl hown, [], ?_⟩
      rw [hview]
      rfl
  | pop len =>
    apply (PooledBuf.pop_kept hown len).imp
    · rintro x' ⟨hkept, hview⟩
      exact ⟨hkept, [], hview⟩
    · exact fun _ => Fails.ne_dangling
  | clear =>
    apply (PooledBuf.clear_kept hown).imp
    · rintro x' ⟨hkept, hview⟩
      exact ⟨hkept, [], congrArg Except.ok hview.symm⟩
    · exact fun _ hno => hno.elim
  | adjust =>
    apply (PooledBuf.adjust_kept hown).imp
    · rintro x' ⟨hkept, hview⟩
      exact ⟨hkept, [], congrArg Except.ok hview.symm⟩
    · exact fun _ hno => hno.elim
  | readData fionread read =>
    apply (PooledBuf.readData_kept hown garbage fionread read).map
    · rintro out ⟨hkept, stale, hview⟩
      exact ⟨hkept, stale, by simp only [viewApply, hview, Except.map]⟩
    · exact fun _ => Fails.ne_dangling
  | sendData bytes =>
    apply (PooledBuf.sendData_kept hown garbage bytes).map
    · rintro out ⟨hkept, stale, hview⟩
      exact ⟨hkept, stale, by simp only [viewApply, hview, Except.map]⟩
    · exact fun _ => Fails.ne_dangling
  | write2fd result =>
    apply (PooledBuf.write2fd_kept hown result).map
    · rintro out ⟨hkept, hview⟩
      exact ⟨hkept, [], by simp only [viewApply, hview, Except.map]⟩
    · exact fun _ => Fails.ne_dangling

section Steps

variable [DecidableEq R]

/-- The blocks of the other buffers. -/
def OtherBlocks (s : Buffers R) (r : R) (p : Ptr) : Prop := ∃ r', r' ≠ r ∧ s.bufs r' = some p

/-- The buffers after an operation of one of them. -/
def put (s : Buffers R) (r : R) (x : PooledBuf) : Buffers R :=
  ⟨x.pool, Function.update s.bufs r x.buf⟩

theorem put_buffer (s : Buffers R) (r : R) (x : PooledBuf) : (s.put r x).buffer r = x := by
  simp only [buffer, put, Function.update_self]

theorem Inv.owns {s : Buffers R} (hinv : s.Inv) (r : R) :
    (s.buffer r).Owns (s.OtherBlocks r) := by
  obtain ⟨hunique, free, hpart⟩ := hinv
  refine ⟨?_, free, hpart.congr ?_⟩
  · rintro p hr ⟨r', hne, hr'⟩
    exact hne (hunique r' r p hr' hr)
  · intro p
    constructor
    · rintro ⟨r', hr'⟩
      by_cases hne : r' = r
      · exact Or.inr (hne ▸ hr')
      · exact Or.inl ⟨r', hne, hr'⟩
    · rintro (⟨r', -, hr'⟩ | hr)
      · exact ⟨r', hr'⟩
      · exact ⟨r, hr⟩

/-- An operation that does not concern the other buffers leaves them what they have. -/
theorem Inv.put {s : Buffers R} (hinv : s.Inv) {r : R} {x : PooledBuf}
    (hkept : (s.buffer r).Kept (s.OtherBlocks r) x) :
    Inv (s.put r x) ∧ ∀ r', r' ≠ r → ((s.put r x).buffer r').view = (s.buffer r').view := by
  obtain ⟨⟨hnot, free, hpart⟩, hframe⟩ := hkept
  have hself : Function.update s.bufs r x.buf r = x.buf := Function.update_self _ _ _
  have hother : ∀ r', r' ≠ r → Function.update s.bufs r x.buf r' = s.bufs r' :=
    fun r' hne => Function.update_of_ne hne _ _
  refine ⟨⟨?_, free, hpart.congr ?_⟩, ?_⟩
  · intro first second p hfirst hsecond
    simp only [Buffers.put] at hfirst hsecond
    by_cases hf : first = r
    · by_cases hsec : second = r
      · exact hf.trans hsec.symm
      · rw [hf, hself] at hfirst
        rw [hother second hsec] at hsecond
        exact absurd ⟨second, hsec, hsecond⟩ (hnot p hfirst)
    · rw [hother first hf] at hfirst
      by_cases hsec : second = r
      · rw [hsec, hself] at hsecond
        exact absurd ⟨first, hf, hfirst⟩ (hnot p hsecond)
      · rw [hother second hsec] at hsecond
        exact hinv.1 first second p hfirst hsecond
  · intro p
    constructor
    · rintro (⟨r', hne, hr'⟩ | hx)
      · exact ⟨r', (hother r' hne).trans hr'⟩
      · exact ⟨r, hself.trans hx⟩
    · rintro ⟨r', hr'⟩
      by_cases hne : r' = r
      · rw [hne] at hr'
        exact Or.inr (hself.symm.trans hr')
      · exact Or.inl ⟨r', hne, (hother r' hne).symm.trans hr'⟩
  · intro r' hne
    simp only [PooledBuf.view, buffer, Buffers.put, hother r' hne]
    cases hr' : s.bufs r' with
    | none => rfl
    | some p =>
      simp only [Option.bind_some]
      rw [hframe p ⟨r', hne, hr'⟩]
      rfl

variable (garbage : Ptr → List Byte)

def step (s : Buffers R) (label : R × BufferOp) : Except PoolFault (Buffers R) :=
  (apply garbage (s.buffer label.1) label.2).map fun x =>
    ⟨x.pool, Function.update s.bufs label.1 x.buf⟩

/-- **One step**: the blocks stay free or owned by one buffer, the buffer does what it would do
    with its block to itself, and what the others hold is unchanged. -/
theorem step_apart {s : Buffers R} (hinv : s.Inv) (r : R) (op : BufferOp) :
    Lands
      (fun t => Inv t ∧ (∃ stale, viewApply stale (s.buffer r).view op =
          Except.ok (t.buffer r).view) ∧
        ∀ r', r' ≠ r → (t.buffer r').view = (s.buffer r').view)
      (· ≠ PoolFault.dangling) (step garbage s (r, op)) := by
  apply (apply_apart garbage (hinv.owns r) op).map
  · rintro x ⟨hkept, stale, hview⟩
    obtain ⟨hinv', hothers⟩ := hinv.put hkept
    exact ⟨hinv', ⟨stale, hview.trans (congrArg (Except.ok ∘ PooledBuf.view)
      (put_buffer s r x).symm)⟩, hothers⟩
  · exact fun _ hfault => hfault

/-- **Buffer ownership**: in every state of every run, each block is in one free list of its
    size class or owned by one buffer, and the pool allocates from the class it should. No
    pointer to no block is followed on the way. -/
theorem buffers_owned (ops : List (R × BufferOp)) :
    Safe (step garbage) (fun s => (∃ free, Owned s free) ∧ ∀ n, Allocates garbage s n)
      (· ≠ PoolFault.dangling) (start garbage) ops := by
  refine safe_of_meets Inv ?_ ?_ (inv_start garbage) (meets_true _ _ ops)
  · intro s hinv
    exact ⟨hinv.owned, hinv.allocates garbage⟩
  · rintro s ⟨r, op⟩ hinv -
    exact (step_apart garbage hinv r op).imp (fun t ht => ht.1) fun _ hfault => hfault

end Steps

end Buffers

end LarsSystem.Reactor
