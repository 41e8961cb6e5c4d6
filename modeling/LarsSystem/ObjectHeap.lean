import Mathlib.Algebra.GroupWithZero.Nat
import Mathlib.Data.List.Basic
import Mathlib.Logic.Function.Basic

/-!
# Objects behind pointers

`new` hands out a pointer that was never handed out before and `delete` ends the
object behind one: a pointer is an identity, not an address that may come back.
What a dangling pointer refers to is `none`, so that a program which follows one,
or deletes twice, can be seen to fail.
-/

namespace LarsSystem

universe u

abbrev Ptr := Nat

structure ObjectHeap (α : Type u) where
  cells : Ptr → Option α
  next : Ptr
  fresh : ∀ p, next ≤ p → cells p = none

namespace ObjectHeap

variable {α : Type u} {heap : ObjectHeap α} {p q : Ptr} {a : α}

def empty : ObjectHeap α := ⟨fun _ => none, 0, fun _ _ => rfl⟩

theorem lt_next (hcell : heap.cells p = some a) : p < heap.next := by
  by_contra hle
  exact absurd (hcell.symm.trans (heap.fresh p (Nat.le_of_not_lt hle))) (by simp)

/-- The heap after a `new`; the pointer is `heap.next`. -/
def alloc (heap : ObjectHeap α) (a : α) : ObjectHeap α where
  cells := Function.update heap.cells heap.next (some a)
  next := heap.next + 1
  fresh := by
    intro p hp
    rw [Function.update_of_ne (Nat.ne_of_gt hp)]
    exact heap.fresh p (Nat.le_of_succ_le hp)

def modify (heap : ObjectHeap α) (p : Ptr) (f : α → α) : ObjectHeap α where
  cells := Function.update heap.cells p ((heap.cells p).map f)
  next := heap.next
  fresh := by
    intro q hq
    by_cases hqp : q = p
    · rw [hqp, Function.update_self, heap.fresh p (hqp ▸ hq), Option.map_none]
    · rw [Function.update_of_ne hqp]
      exact heap.fresh q hq

def free (heap : ObjectHeap α) (p : Ptr) : ObjectHeap α where
  cells := Function.update heap.cells p none
  next := heap.next
  fresh := by
    intro q hq
    by_cases hqp : q = p
    · rw [hqp, Function.update_self]
    · rw [Function.update_of_ne hqp]
      exact heap.fresh q hq

@[simp] theorem alloc_self (heap : ObjectHeap α) (a : α) :
    (heap.alloc a).cells heap.next = some a :=
  Function.update_self _ _ _

/-- A `new` changes nothing that was handed out before. -/
theorem alloc_below (hp : p < heap.next) (a : α) : (heap.alloc a).cells p = heap.cells p :=
  Function.update_of_ne (Nat.ne_of_lt hp) _ _

theorem alloc_live (hcell : heap.cells p = some a) (b : α) :
    (heap.alloc b).cells p = some a :=
  (alloc_below (lt_next hcell) b).trans hcell

@[simp] theorem modify_self (heap : ObjectHeap α) (p : Ptr) (f : α → α) :
    (heap.modify p f).cells p = (heap.cells p).map f :=
  Function.update_self _ _ _

@[simp] theorem modify_other (hne : q ≠ p) (f : α → α) :
    (heap.modify p f).cells q = heap.cells q :=
  Function.update_of_ne hne _ _

@[simp] theorem free_self (heap : ObjectHeap α) (p : Ptr) : (heap.free p).cells p = none :=
  Function.update_self _ _ _

@[simp] theorem free_other (hne : q ≠ p) : (heap.free p).cells q = heap.cells q :=
  Function.update_of_ne hne _ _

/-- A dangling pointer stays dangling. -/
theorem free_dangling (hcell : heap.cells p = none) (q : Ptr) : (heap.free q).cells p = none := by
  by_cases hpq : p = q
  · rw [hpq, free_self]
  · rw [free_other hpq, hcell]

/-! ## What all objects amount to -/

/-- The sum of a measure over the objects. -/
def total (heap : ObjectHeap α) (measure : α → Nat) : Nat :=
  ((List.range heap.next).map fun p => (heap.cells p).elim 0 measure).sum

variable (measure : α → Nat)

theorem total_congr {heap' : ObjectHeap α} (hnext : heap'.next = heap.next)
    (hcells : ∀ p, p < heap.next →
      (heap'.cells p).elim 0 measure = (heap.cells p).elim 0 measure) :
    heap'.total measure = heap.total measure := by
  unfold total
  rw [hnext]
  refine congrArg List.sum (List.map_congr_left ?_)
  intro p hp
  exact hcells p (List.mem_range.mp hp)

theorem total_alloc (heap : ObjectHeap α) (a : α) :
    (heap.alloc a).total measure = heap.total measure + measure a := by
  have hbelow : (List.range heap.next).map
      (fun p => ((heap.alloc a).cells p).elim 0 measure) =
        (List.range heap.next).map fun p => (heap.cells p).elim 0 measure := by
    apply List.map_congr_left
    intro p hp
    rw [alloc_below (List.mem_range.mp hp)]
  have hnext : (heap.alloc a).next = heap.next + 1 := rfl
  unfold total
  rw [hnext, List.range_succ, List.map_append, List.sum_append, hbelow]
  simp

/-- A change that the measure does not see. -/
theorem total_modify (heap : ObjectHeap α) (p : Ptr) {f : α → α}
    (hkeep : ∀ a, measure (f a) = measure a) :
    (heap.modify p f).total measure = heap.total measure := by
  refine total_congr measure rfl ?_
  intro q _
  by_cases hqp : q = p
  · rw [hqp, modify_self]
    cases heap.cells p with
    | none => rfl
    | some a => exact hkeep a
  · rw [modify_other hqp]

end ObjectHeap

end LarsSystem
