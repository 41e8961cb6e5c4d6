import LarsSystem.ObjectHeap

/-!
# Double buffering

Two objects behind two pointers: readers look at the front one, a writer changes
the back one for as long as it likes, and a swap of the pointers publishes what
it has built. A buffer cannot be made whose two pointers are the same, or one
that dangles.
-/

namespace LarsSystem

universe u

structure DoubleBuffer (M : Type u) where
  heap : ObjectHeap M
  front : Ptr
  back : Ptr
  apart : front ≠ back
  front_live : (heap.cells front).isSome
  back_live : (heap.cells back).isSome

namespace DoubleBuffer

variable {M : Type u}

/-- Two `new`s. -/
def create (front back : M) : DoubleBuffer M where
  heap := (ObjectHeap.empty.alloc front).alloc back
  front := 0
  back := 1
  apart := Nat.zero_ne_one
  front_live := rfl
  back_live := rfl

/-- What a reader finds. -/
def read (b : DoubleBuffer M) : M := (b.heap.cells b.front).get b.front_live

/-- What the writer has built so far. -/
def staged (b : DoubleBuffer M) : M := (b.heap.cells b.back).get b.back_live

/-- The writer changes the back object in place. -/
def edit (b : DoubleBuffer M) (f : M → M) : DoubleBuffer M :=
  { b with
    heap := b.heap.modify b.back f
    front_live := by
      rw [ObjectHeap.modify_other b.apart]
      exact b.front_live
    back_live := by
      rw [ObjectHeap.modify_self, Option.isSome_map]
      exact b.back_live }

def swap (b : DoubleBuffer M) : DoubleBuffer M :=
  { b with
    front := b.back
    back := b.front
    apart := b.apart.symm
    front_live := b.back_live
    back_live := b.front_live }

@[simp] theorem read_create (front back : M) : (create front back).read = front := rfl

@[simp] theorem staged_create (front back : M) : (create front back).staged = back := rfl

/-- Readers do not see the writer's changes. -/
@[simp] theorem read_edit (b : DoubleBuffer M) (f : M → M) : (b.edit f).read = b.read := by
  simp only [read, edit, ObjectHeap.modify_other b.apart]

@[simp] theorem staged_edit (b : DoubleBuffer M) (f : M → M) :
    (b.edit f).staged = f b.staged := by
  simp only [staged, edit, ObjectHeap.modify_self, Option.get_map]

@[simp] theorem read_swap (b : DoubleBuffer M) : b.swap.read = b.staged := rfl

@[simp] theorem staged_swap (b : DoubleBuffer M) : b.swap.staged = b.read := rfl

end DoubleBuffer

end LarsSystem
