import LarsSystem.ObjectHeap

/-!
# Singly linked lists of objects

Objects on a heap that link to one another, from a head pointer to a null link.
A chain that is finite visits no object twice: what follows an object is
determined by it.
-/

namespace LarsSystem.LinkedChain

universe u

variable {α : Type u}

/-- The objects met on the way from a pointer to the end of its list. -/
inductive Chain (link : α → Option Ptr) (heap : ObjectHeap α) : Option Ptr → List Ptr → Prop
  | nil : Chain link heap none []
  | cons {p : Ptr} {a : α} {l : List Ptr} :
      heap.cells p = some a → Chain link heap (link a) l → Chain link heap (some p) (p :: l)

namespace Chain

variable {link : α → Option Ptr} {heap heap' : ObjectHeap α} {head : Option Ptr} {l : List Ptr}

theorem unique {m : List Ptr} (first : Chain link heap head l) (second : Chain link heap head m) :
    l = m := by
  induction first generalizing m with
  | nil =>
    cases second
    rfl
  | cons hcell _ ih =>
    cases second with
    | cons hcell' hrest =>
      cases hcell.symm.trans hcell'
      rw [ih hrest]

/-- From every object of a chain a chain leads to the end. -/
theorem suffix_of_mem (chain : Chain link heap head l) {p : Ptr} (hp : p ∈ l) :
    ∃ m, Chain link heap (some p) m ∧ m.length ≤ l.length := by
  induction chain with
  | nil => cases hp
  | @cons q a l hcell hrest ih =>
    rcases List.mem_cons.mp hp with rfl | hin
    · exact ⟨p :: l, Chain.cons hcell hrest, Nat.le_refl _⟩
    · obtain ⟨m, hm, hlength⟩ := ih hin
      exact ⟨m, hm, Nat.le_succ_of_le hlength⟩

/-- **A finite chain has no repeats.** -/
theorem nodup (chain : Chain link heap head l) : l.Nodup := by
  induction chain with
  | nil => exact List.nodup_nil
  | @cons p a l hcell hrest ih =>
    refine List.nodup_cons.mpr ⟨?_, ih⟩
    intro hp
    -- the chain from `p` would be shorter than itself
    obtain ⟨m, hm, hlength⟩ := hrest.suffix_of_mem hp
    rw [← (Chain.cons hcell hrest).unique hm] at hlength
    exact absurd hlength (Nat.not_succ_le_self _)

/-- A chain depends only on the objects it visits. -/
theorem frame (chain : Chain link heap head l)
    (agree : ∀ p ∈ l, heap'.cells p = heap.cells p) : Chain link heap' head l := by
  induction chain with
  | nil => exact Chain.nil
  | cons hcell _ ih =>
    refine Chain.cons ((agree _ List.mem_cons_self).trans hcell) (ih ?_)
    intro p hp
    exact agree p (List.mem_cons_of_mem _ hp)

theorem head_cons {p : Ptr} (chain : Chain link heap (some p) l) :
    ∃ a rest, heap.cells p = some a ∧ l = p :: rest ∧ Chain link heap (link a) rest := by
  cases chain with
  | cons hcell hrest => exact ⟨_, _, hcell, rfl, hrest⟩

/-- An object linked behind the last one. -/
theorem snoc {last q : Ptr} {a b : α} (chain : Chain link heap head (l ++ [last]))
    (agree : ∀ p ∈ l, heap'.cells p = heap.cells p)
    (hlast : heap'.cells last = some a) (hlink : link a = some q)
    (hq : heap'.cells q = some b) (hend : link b = none) :
    Chain link heap' head (l ++ [last] ++ [q]) := by
  induction l generalizing head with
  | nil =>
    cases chain with
    | cons hcell hrest =>
      apply Chain.cons hlast
      rw [hlink]
      apply Chain.cons hq
      rw [hend]
      exact Chain.nil
  | cons p l ih =>
    cases chain with
    | cons hcell hrest =>
      refine Chain.cons ((agree p List.mem_cons_self).trans hcell) (ih hrest ?_)
      intro p' hp'
      exact agree p' (List.mem_cons_of_mem _ hp')

end Chain

end LarsSystem.LinkedChain
