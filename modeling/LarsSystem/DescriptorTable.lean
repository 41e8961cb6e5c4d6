import LarsSystem.TextRuns
import Mathlib.Data.Nat.Find
import Mathlib.Logic.Function.Basic

/-!
# Descriptors shared by several owners

The table of the open descriptors of a process, with who opened each: a new
descriptor gets the smallest number that is free, and closing frees the number for
whoever opens next. Beside it the history of one owner, which holds a number from
its opening to its closing. As long as the others close what is theirs, the table
and the history agree, whatever the owner itself closes.
-/

namespace LarsSystem

universe u

structure DescriptorTable (ω : Type u) where
  owner : Int → Option ω
  negative : ∀ fd < 0, owner fd = none
  finite : ∃ bound : Nat, ∀ n : Nat, bound ≤ n → owner n = none

namespace DescriptorTable

variable {ω : Type u} {w : ω} {fd fd' : Int}

theorem exists_free (table : DescriptorTable ω) : ∃ n : Nat, (table.owner n).isNone := by
  obtain ⟨bound, hfree⟩ := table.finite
  exact ⟨bound, Option.isNone_iff_eq_none.mpr (hfree bound (Nat.le_refl bound))⟩

/-- The smallest free number. -/
def firstFree (table : DescriptorTable ω) : Nat := Nat.find table.exists_free

def grant (table : DescriptorTable ω) (w : ω) : DescriptorTable ω where
  owner := Function.update table.owner table.firstFree (some w)
  negative := by
    intro fd hneg
    rw [Function.update_of_ne (by omega)]
    exact table.negative fd hneg
  finite := by
    obtain ⟨bound, hfree⟩ := table.finite
    refine ⟨max bound (table.firstFree + 1), fun n hn => ?_⟩
    rw [Function.update_of_ne (by omega)]
    exact hfree n (by omega)

/-- A number that is not open is refused. -/
def close (table : DescriptorTable ω) (fd : Int) : DescriptorTable ω where
  owner := Function.update table.owner fd none
  negative := by
    intro fd' hneg
    by_cases hfd : fd' = fd
    · rw [hfd, Function.update_self]
    · rw [Function.update_of_ne hfd]
      exact table.negative fd' hneg
  finite := by
    obtain ⟨bound, hfree⟩ := table.finite
    refine ⟨bound, fun n hn => ?_⟩
    by_cases hfd : (n : Int) = fd
    · rw [hfd, Function.update_self]
    · rw [Function.update_of_ne hfd]
      exact hfree n hn

theorem owner_firstFree (table : DescriptorTable ω) : table.owner table.firstFree = none :=
  Option.isNone_iff_eq_none.mp (Nat.find_spec table.exists_free)

/-- A number that is free above taken ones is the next to be granted. -/
theorem firstFree_eq {table : DescriptorTable ω} {n : Nat} (hfree : table.owner n = none)
    (htaken : ∀ m : Nat, m < n → table.owner m ≠ none) : table.firstFree = n := by
  apply (Nat.find_eq_iff table.exists_free).mpr
  refine ⟨Option.isNone_iff_eq_none.mpr hfree, fun m hm hnone => ?_⟩
  exact htaken m hm (Option.isNone_iff_eq_none.mp hnone)

@[simp] theorem grant_self (table : DescriptorTable ω) (w : ω) :
    (table.grant w).owner table.firstFree = some w :=
  Function.update_self _ _ _

theorem grant_other {table : DescriptorTable ω} (hfd : fd ≠ table.firstFree) (w : ω) :
    (table.grant w).owner fd = table.owner fd :=
  Function.update_of_ne hfd _ _

@[simp] theorem close_self (table : DescriptorTable ω) (fd : Int) :
    (table.close fd).owner fd = none :=
  Function.update_self _ _ _

theorem close_other {table : DescriptorTable ω} (hfd : fd' ≠ fd) :
    (table.close fd).owner fd' = table.owner fd' :=
  Function.update_of_ne hfd _ _

theorem close_close (table : DescriptorTable ω) (fd : Int) :
    (table.close fd).close fd = table.close fd := by
  simp only [close, Function.update_idem]

/-- What is open stays open, with its owner, when another descriptor is opened. -/
theorem grant_open {table : DescriptorTable ω} (howner : table.owner fd = some w) (w' : ω) :
    (table.grant w').owner fd = some w := by
  rw [grant_other, howner]
  rintro rfl
  rw [owner_firstFree] at howner
  cases howner

end DescriptorTable

/-! ## The history of one owner -/

inductive DescriptorAct where
  | opened (fd : Int)
  | closed (fd : Int)
deriving DecidableEq, Repr

/-- `fd` has been opened and not closed since. -/
def Held (history : List DescriptorAct) (fd : Int) : Prop :=
  ∃ before after, history = before ++ .opened fd :: after ∧ .closed fd ∉ after

/-- Every close is of a descriptor that has been opened and not closed since. -/
def ClosesOwn (history : List DescriptorAct) : Prop :=
  ∀ before fd after, history = before ++ .closed fd :: after → Held before fd

section History

variable {history : List DescriptorAct} {act : DescriptorAct} {fd fd' : Int}

theorem held_opened (history : List DescriptorAct) (fd : Int) :
    Held (history ++ [.opened fd]) fd :=
  ⟨history, [], rfl, List.not_mem_nil⟩

theorem Held.snoc (hheld : Held history fd) (hact : act ≠ .closed fd) :
    Held (history ++ [act]) fd := by
  obtain ⟨before, after, rfl, hopen⟩ := hheld
  refine ⟨before, after ++ [act], by simp, ?_⟩
  rw [List.mem_append, List.mem_singleton]
  exact not_or.mpr ⟨hopen, hact.symm⟩

theorem held_snoc_iff (hopened : act ≠ .opened fd) (hclosed : act ≠ .closed fd) :
    Held (history ++ [act]) fd ↔ Held history fd := by
  refine ⟨?_, fun hheld => hheld.snoc hclosed⟩
  rintro ⟨before, after, heq, hopen⟩
  rcases snoc_eq_append_cons.mp heq with ⟨-, -, hact⟩ | ⟨after', rfl, rfl⟩
  · exact absurd hact hopened
  · exact ⟨before, after', rfl, fun hmem => hopen (List.mem_append_left _ hmem)⟩

theorem not_held_closed (history : List DescriptorAct) (fd : Int) :
    ¬ Held (history ++ [.closed fd]) fd := by
  rintro ⟨before, after, heq, hopen⟩
  rcases snoc_eq_append_cons.mp heq with ⟨-, -, hact⟩ | ⟨after', rfl, -⟩
  · cases hact
  · exact hopen (List.mem_append_right _ (List.mem_singleton.mpr rfl))

theorem closesOwn_nil : ClosesOwn [] := by
  intro before fd after heq
  cases before <;> cases heq

theorem ClosesOwn.opened (hown : ClosesOwn history) (fd : Int) :
    ClosesOwn (history ++ [.opened fd]) := by
  intro before fd' after heq
  rcases snoc_eq_append_cons.mp heq with ⟨-, -, hact⟩ | ⟨after', -, hhistory⟩
  · cases hact
  · exact hown before fd' after' hhistory

theorem closesOwn_closed_iff :
    ClosesOwn (history ++ [.closed fd]) ↔ ClosesOwn history ∧ Held history fd := by
  constructor
  · intro hown
    refine ⟨?_, hown history fd [] rfl⟩
    rintro before fd' after rfl
    exact hown before fd' (after ++ [.closed fd]) (by rw [List.append_assoc, List.cons_append])
  · rintro ⟨hown, hheld⟩ before fd' after heq
    rcases snoc_eq_append_cons.mp heq with ⟨-, rfl, hact⟩ | ⟨after', -, hhistory⟩
    · cases hact
      exact hheld
    · exact hown before fd' after' hhistory

end History

/-! ## Table and history -/

/-- The descriptors of `w` in the table are those that its history holds. -/
def DescriptorTable.Agrees {ω : Type u} (table : DescriptorTable ω) (w : ω)
    (history : List DescriptorAct) : Prop :=
  ∀ fd, table.owner fd = some w ↔ Held history fd

namespace DescriptorTable.Agrees

variable {ω : Type u} {table : DescriptorTable ω} {w w' : ω} {history : List DescriptorAct}
  {fd : Int}

theorem opened (agrees : table.Agrees w history) :
    (table.grant w).Agrees w (history ++ [.opened table.firstFree]) := by
  intro fd
  by_cases hfd : fd = table.firstFree
  · rw [hfd, grant_self]
    exact iff_of_true rfl (held_opened history _)
  · rw [grant_other hfd, agrees fd, held_snoc_iff]
    · intro heq
      exact hfd (DescriptorAct.opened.inj heq).symm
    · intro heq
      cases heq

theorem closed (agrees : table.Agrees w history) (fd : Int) :
    (table.close fd).Agrees w (history ++ [.closed fd]) := by
  intro fd'
  by_cases hfd : fd' = fd
  · rw [hfd, close_self]
    refine iff_of_false ?_ (not_held_closed history fd)
    intro hnone
    cases hnone
  · rw [close_other hfd, agrees fd', held_snoc_iff]
    · intro heq
      cases heq
    · intro heq
      exact hfd (DescriptorAct.closed.inj heq).symm

theorem othersOpen (agrees : table.Agrees w history) (hne : w' ≠ w) :
    (table.grant w').Agrees w history := by
  intro fd
  rw [← agrees fd]
  by_cases hfd : fd = table.firstFree
  · rw [hfd, grant_self, owner_firstFree]
    refine iff_of_false ?_ ?_
    · intro heq
      exact hne (Option.some.inj heq)
    · intro hnone
      cases hnone
  · rw [grant_other hfd]

theorem othersClose (agrees : table.Agrees w history) (howner : table.owner fd = some w')
    (hne : w' ≠ w) : (table.close fd).Agrees w history := by
  intro fd'
  rw [← agrees fd']
  by_cases hfd : fd' = fd
  · rw [hfd, close_self, howner]
    refine iff_of_false ?_ ?_
    · intro hnone
      cases hnone
    · intro heq
      exact hne (Option.some.inj heq)
  · rw [close_other hfd]

end DescriptorTable.Agrees

end LarsSystem
