import Mathlib.Data.List.Basic

/-!
# Vectors that move when they grow

A vector keeps its elements in one allocation. Appending to a full one moves them
to a larger allocation, and an iterator into the old one is not valid any more.
The allocations of a vector are numbered, so that an iterator knows the one it
points into.
-/

namespace LarsSystem

universe u

/-- How much larger the next allocation is. -/
structure Growth where
  grow : Nat → Nat
  lt_grow : ∀ n, n < grow n

/-- Twice as many elements, and at least one. -/
def Growth.double : Growth where
  grow n := n + max n 1
  lt_grow := by omega

structure GrowingVector (α : Type u) where
  items : List α
  capacity : Nat
  block : Nat
  fits : items.length ≤ capacity

/-- An iterator: the allocation, and the index in it. -/
structure VectorIter where
  block : Nat
  index : Nat

def VectorIter.next (it : VectorIter) : VectorIter := { it with index := it.index + 1 }

namespace GrowingVector

variable {α : Type u} (growth : Growth)

def empty : GrowingVector α := ⟨[], 0, 0, Nat.le_refl 0⟩

/-- `begin()`. -/
def first (v : GrowingVector α) : VectorIter := ⟨v.block, 0⟩

def clear (v : GrowingVector α) : GrowingVector α :=
  { v with items := [], fits := Nat.zero_le _ }

def pushBack (v : GrowingVector α) (a : α) : GrowingVector α :=
  if hroom : v.items.length < v.capacity then
    { v with
      items := v.items ++ [a]
      fits := by rw [List.length_append]; exact hroom }
  else
    { items := v.items ++ [a]
      capacity := growth.grow v.capacity
      block := v.block + 1
      fits := by
        rw [List.length_append]
        exact Nat.succ_le_of_lt (Nat.lt_of_le_of_lt v.fits (growth.lt_grow v.capacity)) }

def pushAll (v : GrowingVector α) (l : List α) : GrowingVector α := l.foldl (pushBack growth) v

@[simp] theorem pushBack_items (v : GrowingVector α) (a : α) :
    (v.pushBack growth a).items = v.items ++ [a] := by
  unfold pushBack
  split <;> rfl

@[simp] theorem pushAll_items (v : GrowingVector α) (l : List α) :
    (v.pushAll growth l).items = v.items ++ l := by
  induction l generalizing v with
  | nil => exact (List.append_nil _).symm
  | cons a l ih =>
    have hrest := ih (v.pushBack growth a)
    rw [pushBack_items, List.append_assoc, List.singleton_append] at hrest
    exact hrest

theorem block_le_pushBack (v : GrowingVector α) (a : α) :
    v.block ≤ (v.pushBack growth a).block := by
  unfold pushBack
  split
  · exact Nat.le_refl _
  · exact Nat.le_succ _

theorem block_le_pushAll (v : GrowingVector α) (l : List α) :
    v.block ≤ (v.pushAll growth l).block := by
  induction l generalizing v with
  | nil => exact Nat.le_refl _
  | cons a l ih => exact Nat.le_trans (v.block_le_pushBack growth a) (ih (v.pushBack growth a))

/-- Appending within the capacity moves nothing. -/
theorem pushAll_inPlace {v : GrowingVector α} {l : List α}
    (hroom : v.items.length + l.length ≤ v.capacity) :
    (v.pushAll growth l).block = v.block ∧ (v.pushAll growth l).capacity = v.capacity := by
  induction l generalizing v with
  | nil => exact ⟨rfl, rfl⟩
  | cons a l ih =>
    rw [List.length_cons] at hroom
    have hlt : v.items.length < v.capacity := by omega
    have hblock : (v.pushBack growth a).block = v.block := by rw [pushBack, dif_pos hlt]
    have hcapacity : (v.pushBack growth a).capacity = v.capacity := by rw [pushBack, dif_pos hlt]
    have hrest := ih (v := v.pushBack growth a) (by
      rw [pushBack_items, hcapacity, List.length_append, List.length_singleton]
      omega)
    rw [hblock, hcapacity] at hrest
    exact hrest

/-- **Appending past the capacity moves the elements.** -/
theorem pushAll_moves {v : GrowingVector α} {l : List α}
    (hfull : v.capacity < v.items.length + l.length) :
    v.block < (v.pushAll growth l).block := by
  induction l generalizing v with
  | nil => exact absurd v.fits (Nat.not_le.mpr hfull)
  | cons a l ih =>
    rw [List.length_cons] at hfull
    by_cases hlt : v.items.length < v.capacity
    · have hblock : (v.pushBack growth a).block = v.block := by rw [pushBack, dif_pos hlt]
      have hcapacity : (v.pushBack growth a).capacity = v.capacity := by
        rw [pushBack, dif_pos hlt]
      have hrest := ih (v := v.pushBack growth a) (by
        rw [pushBack_items, hcapacity, List.length_append, List.length_singleton]
        omega)
      rw [hblock] at hrest
      exact hrest
    · have hblock : (v.pushBack growth a).block = v.block + 1 := by rw [pushBack, dif_neg hlt]
      have hrest := (v.pushBack growth a).block_le_pushAll growth l
      rw [hblock] at hrest
      exact hrest

end GrowingVector

end LarsSystem
