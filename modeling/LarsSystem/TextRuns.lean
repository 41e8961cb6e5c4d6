import Mathlib.Data.List.DropRight
import Mathlib.Data.List.TakeWhile

/-!
# Runs in a text

Two ways of cutting a text by a test on its characters: `Trimmed` takes the blanks
off both ends, and `IsTokenList` lists what stands between separators. Both say
what the outcome is, by positions and characters, and not how it is found; the
lemmas below build the outcome up in the order in which a scan meets it.
-/

namespace LarsSystem

universe u

variable {α : Type u}

/-- A cut of a list that has grown by one element: at that element, or before it. -/
theorem snoc_eq_append_cons {l before after : List α} {a b : α} :
    l ++ [a] = before ++ b :: after ↔
      (after = [] ∧ l = before ∧ a = b) ∨
        ∃ after', after = after' ++ [a] ∧ l = before ++ b :: after' := by
  constructor
  · intro heq
    rcases List.eq_nil_or_concat after with rfl | ⟨after', last, rfl⟩
    · obtain ⟨hl, hlast⟩ := List.append_inj' heq rfl
      exact Or.inl ⟨rfl, hl, List.singleton_inj.mp hlast⟩
    · have hsplit : l ++ [a] = (before ++ b :: after') ++ [last] := by
        rw [heq, List.concat_eq_append, List.append_assoc, List.cons_append]
      obtain ⟨hl, hlast⟩ := List.append_inj' hsplit rfl
      cases hlast
      exact Or.inr ⟨after', List.concat_eq_append, hl⟩
  · rintro (⟨rfl, rfl, rfl⟩ | ⟨after', rfl, rfl⟩)
    · rfl
    · rw [List.append_assoc, List.cons_append]

/-! ## Trimming -/

/-- `t` is what is left of `s` without the blanks at its ends. -/
def Trimmed (blank : α → Bool) (s t : List α) : Prop :=
  ∃ left right, s = left ++ t ++ right ∧
    (∀ a ∈ left, blank a = true) ∧ (∀ a ∈ right, blank a = true) ∧
    (∀ a ∈ t.head?, blank a = false) ∧ ∀ a ∈ t.getLast?, blank a = false

section Trimming

variable {blank : α → Bool} {s t left right : List α}

theorem drop_length_takeWhile (blank : α → Bool) (s : List α) :
    s.drop (s.takeWhile blank).length = s.dropWhile blank := by
  have hcut : s.takeWhile blank ++ s.dropWhile blank = s := List.takeWhile_append_dropWhile
  calc s.drop (s.takeWhile blank).length
      = (s.takeWhile blank ++ s.dropWhile blank).drop (s.takeWhile blank).length := by rw [hcut]
    _ = s.dropWhile blank := List.drop_left

theorem take_length_takeWhile_reverse (blank : α → Bool) (s : List α) :
    s.take (s.length - (s.reverse.takeWhile blank).length) = s.rdropWhile blank := by
  change s.rdrop (s.reverse.takeWhile blank).length = _
  rw [List.rdrop_eq_reverse_drop_reverse, drop_length_takeWhile]
  rfl

theorem dropWhile_eq_self (hhead : ∀ a ∈ t.head?, blank a = false) : t.dropWhile blank = t := by
  cases t with
  | nil => rfl
  | cons a t => rw [List.dropWhile_cons_of_neg (by simp [hhead a rfl])]

theorem rdropWhile_eq_self (hlast : ∀ a ∈ t.getLast?, blank a = false) :
    t.rdropWhile blank = t := by
  apply List.rdropWhile_eq_self_iff.mpr
  intro hne
  rw [hlast _ (List.getLast?_eq_some_getLast hne)]
  exact Bool.false_ne_true

theorem rdropWhile_append_blanks (hright : ∀ a ∈ right, blank a = true) (s : List α) :
    (s ++ right).rdropWhile blank = s.rdropWhile blank := by
  induction right using List.reverseRecOn with
  | nil => rw [List.append_nil]
  | append_singleton right a ih =>
    rw [← List.append_assoc, List.rdropWhile_concat_pos _ _ _ (hright a (by simp))]
    exact ih fun b hb => hright b (by simp [hb])

/-- There is one trimmed text: cut on the right, then on the left. -/
theorem trimmed_iff : Trimmed blank s t ↔ (s.rdropWhile blank).dropWhile blank = t := by
  constructor
  · rintro ⟨left, right, rfl, hleft, hright, hhead, hlast⟩
    rw [rdropWhile_append_blanks hright]
    by_cases ht : t = []
    · rw [ht, List.append_nil, List.rdropWhile_eq_nil_iff.mpr hleft, List.dropWhile_nil]
    · have hlast' : ∀ a ∈ (left ++ t).getLast?, blank a = false := by
        rw [List.getLast?_append_of_ne_nil _ ht]
        exact hlast
      rw [rdropWhile_eq_self hlast', List.dropWhile_append_of_pos hleft, dropWhile_eq_self hhead]
  · rintro rfl
    refine ⟨(s.rdropWhile blank).takeWhile blank, s.rtakeWhile blank, ?_, ?_, ?_, ?_, ?_⟩
    · rw [List.takeWhile_append_dropWhile, List.rdropWhile_append_rtakeWhile]
    · intro a ha
      exact List.mem_takeWhile_imp ha
    · intro a ha
      exact List.mem_rtakeWhile_imp ha
    · intro a ha
      have hnot := List.head?_dropWhile_not blank (s.rdropWhile blank)
      rw [Option.mem_def.mp ha] at hnot
      exact hnot
    · intro a ha
      have hcut : s.rdropWhile blank =
          (s.rdropWhile blank).takeWhile blank ++ (s.rdropWhile blank).dropWhile blank :=
        List.takeWhile_append_dropWhile.symm
      have hkept : (s.rdropWhile blank).dropWhile blank ≠ [] := by
        intro hnil
        rw [hnil] at ha
        cases ha
      have hne : s.rdropWhile blank ≠ [] := by
        intro hnil
        exact hkept (by rw [hnil, List.dropWhile_nil])
      have hlast : (s.rdropWhile blank).getLast? = some a := by
        rw [hcut, List.getLast?_append_of_ne_nil _ hkept]
        exact ha
      have hnot := List.rdropWhile_last_not blank s hne
      rw [List.getLast?_eq_some_getLast hne] at hlast
      rw [Option.some.inj hlast] at hnot
      exact Bool.eq_false_iff.mpr hnot

theorem trimmed_unique {t' : List α} (ht : Trimmed blank s t) (ht' : Trimmed blank s t') :
    t = t' :=
  (trimmed_iff.mp ht).symm.trans (trimmed_iff.mp ht')

theorem exists_trimmed (blank : α → Bool) (s : List α) : ∃ t, Trimmed blank s t :=
  ⟨_, trimmed_iff.mpr rfl⟩

/-- Blanks before and behind a text do not show in what is left of it. -/
theorem trimmed_surround (hleft : ∀ a ∈ left, blank a = true)
    (hright : ∀ a ∈ right, blank a = true) :
    Trimmed blank (left ++ s ++ right) t ↔ Trimmed blank s t := by
  have surround : ∀ t, Trimmed blank s t → Trimmed blank (left ++ s ++ right) t := by
    rintro t ⟨before, after, rfl, hbefore, hafter, hends⟩
    refine ⟨left ++ before, after ++ right, by simp only [List.append_assoc], ?_, ?_, hends⟩
    · exact List.forall_mem_append.mpr ⟨hleft, hbefore⟩
    · exact List.forall_mem_append.mpr ⟨hafter, hright⟩
  constructor
  · intro ht
    obtain ⟨t', ht'⟩ := exists_trimmed blank s
    rwa [trimmed_unique ht (surround t' ht')]
  · exact surround t

theorem trimmed_append_left (hleft : ∀ a ∈ left, blank a = true) :
    Trimmed blank (left ++ s) t ↔ Trimmed blank s t := by
  rw [← List.append_nil (left ++ s)]
  exact trimmed_surround hleft fun _ hmem => absurd hmem List.not_mem_nil

theorem trimmed_append_right (hright : ∀ a ∈ right, blank a = true) :
    Trimmed blank (s ++ right) t ↔ Trimmed blank s t := by
  rw [← List.nil_append s]
  exact trimmed_surround (fun _ hmem => absurd hmem List.not_mem_nil) hright

theorem Trimmed.reverse (ht : Trimmed blank s t) : Trimmed blank s.reverse t.reverse := by
  obtain ⟨before, after, rfl, hbefore, hafter, hhead, hlast⟩ := ht
  refine ⟨after.reverse, before.reverse, by simp, ?_, ?_, ?_, ?_⟩
  · intro a ha
    exact hafter a (List.mem_reverse.mp ha)
  · intro a ha
    exact hbefore a (List.mem_reverse.mp ha)
  · rwa [List.head?_reverse]
  · rwa [List.getLast?_reverse]

/-- The first character that is no blank stays in front. -/
theorem Trimmed.head? {a : α} {rest : List α} (ht : Trimmed blank (left ++ a :: rest) t)
    (hleft : ∀ a ∈ left, blank a = true) (ha : blank a = false) : t.head? = some a := by
  rw [trimmed_append_left hleft] at ht
  obtain ⟨before, after, heq, hbefore, hafter, -⟩ := ht
  cases before with
  | cons b before =>
    cases heq
    rw [hbefore a List.mem_cons_self] at ha
    cases ha
  | nil =>
    cases t with
    | cons b t =>
      cases heq
      rfl
    | nil =>
      change a :: rest = after at heq
      rw [hafter a (heq ▸ List.mem_cons_self)] at ha
      cases ha

theorem Trimmed.getLast? {a : α} {rest : List α} (ht : Trimmed blank (rest ++ a :: right) t)
    (hright : ∀ a ∈ right, blank a = true) (ha : blank a = false) : t.getLast? = some a := by
  have hrev := ht.reverse
  rw [List.reverse_append, List.reverse_cons, List.append_assoc, List.singleton_append] at hrev
  rw [← List.head?_reverse]
  exact hrev.head? (fun b hb => hright b (List.mem_reverse.mp hb)) ha

end Trimming

/-! ## Tokens -/

/-- The positions from `i` up to `j` hold no separator, and neither end can be moved outwards. -/
structure IsRun (sep : α → Bool) (s : List α) (i j : Nat) : Prop where
  nonempty : i < j
  inside : j ≤ s.length
  clear : ∀ n a, i ≤ n → n < j → s[n]? = some a → sep a = false
  left : ∀ n a, i = n + 1 → s[n]? = some a → sep a = true
  right : ∀ a, s[j]? = some a → sep a = true

def slice (s : List α) (i j : Nat) : List α := (s.drop i).take (j - i)

/-- `spans` are the runs that begin at `k` or later, in order. -/
def RunsFrom (sep : α → Bool) (s : List α) (k : Nat) (spans : List (Nat × Nat)) : Prop :=
  spans.Pairwise (fun p q => p.1 < q.1) ∧ ∀ i j, (i, j) ∈ spans ↔ k ≤ i ∧ IsRun sep s i j

/-- `tokens` are the texts of all runs of `s`, in order. -/
def IsTokenList (sep : α → Bool) (s : List α) (tokens : List (List α)) : Prop :=
  ∃ spans, RunsFrom sep s 0 spans ∧ tokens = spans.map fun p => slice s p.1 p.2

section Tokens

variable {sep : α → Bool} {s : List α} {i j j' k : Nat} {spans : List (Nat × Nat)}

theorem IsRun.getElem? (hrun : IsRun sep s i j) {n : Nat} (hi : i ≤ n) (hj : n < j) :
    ∃ a, s[n]? = some a ∧ sep a = false := by
  have hn : n < s.length := Nat.lt_of_lt_of_le hj hrun.inside
  have hget : s[n]? = some s[n] := List.getElem?_eq_getElem hn
  exact ⟨s[n], hget, hrun.clear n _ hi hj hget⟩

theorem IsRun.right_le (hrun : IsRun sep s i j) (hrun' : IsRun sep s i j') : j' ≤ j := by
  by_contra hlt
  obtain ⟨a, hget, hnot⟩ := hrun'.getElem? (Nat.le_of_lt hrun.nonempty) (Nat.lt_of_not_le hlt)
  rw [hrun.right a hget] at hnot
  cases hnot

/-- No run begins inside another. -/
theorem IsRun.begins_behind (hrun : IsRun sep s k j) (hrun' : IsRun sep s i j') (hk : k < i) :
    j ≤ i := by
  by_contra hlt
  cases i with
  | zero => exact absurd hk (Nat.not_lt_zero k)
  | succ n =>
    obtain ⟨a, hget, hnot⟩ := hrun.getElem? (Nat.le_of_lt_succ hk) (by omega)
    rw [hrun'.left n a rfl hget] at hnot
    cases hnot

theorem runsFrom_end (sep : α → Bool) (s : List α) : RunsFrom sep s s.length [] := by
  refine ⟨List.Pairwise.nil, ?_⟩
  intro i j
  constructor
  · intro hmem
    cases hmem
  · rintro ⟨hle, hrun⟩
    exact absurd hrun.nonempty (Nat.not_lt.mpr (hrun.inside.trans hle))

/-- Separators are passed over. -/
theorem RunsFrom.skip (hruns : RunsFrom sep s k spans) (hjk : j ≤ k)
    (hsep : ∀ n a, j ≤ n → n < k → s[n]? = some a → sep a = true) : RunsFrom sep s j spans := by
  refine ⟨hruns.1, ?_⟩
  intro i j'
  rw [hruns.2]
  constructor
  · rintro ⟨hle, hrun⟩
    exact ⟨hjk.trans hle, hrun⟩
  · rintro ⟨hle, hrun⟩
    refine ⟨?_, hrun⟩
    by_contra hlt
    obtain ⟨a, hget, hnot⟩ := hrun.getElem? (Nat.le_refl i) hrun.nonempty
    rw [hsep i a hle (Nat.lt_of_not_le hlt) hget] at hnot
    cases hnot

/-- A run is taken and the scan goes on where it ends. -/
theorem RunsFrom.cons (hruns : RunsFrom sep s j spans) (hrun : IsRun sep s k j) :
    RunsFrom sep s k ((k, j) :: spans) := by
  constructor
  · refine List.Pairwise.cons ?_ hruns.1
    rintro ⟨i, j'⟩ hmem
    exact Nat.lt_of_lt_of_le hrun.nonempty ((hruns.2 i j').mp hmem).1
  · intro i j'
    rw [List.mem_cons, hruns.2]
    constructor
    · rintro (heq | ⟨hle, hrun'⟩)
      · cases heq
        exact ⟨Nat.le_refl k, hrun⟩
      · exact ⟨(Nat.le_of_lt hrun.nonempty).trans hle, hrun'⟩
    · rintro ⟨hle, hrun'⟩
      rcases Nat.eq_or_lt_of_le hle with rfl | hlt
      · exact Or.inl (by rw [Nat.le_antisymm (hrun.right_le hrun') (hrun'.right_le hrun)])
      · exact Or.inr ⟨hrun.begins_behind hrun' hlt, hrun'⟩

theorem IsTokenList.ne_nil {tokens : List (List α)} (htokens : IsTokenList sep s tokens)
    {token : List α} (hmem : token ∈ tokens) : token ≠ [] := by
  obtain ⟨spans, hruns, rfl⟩ := htokens
  obtain ⟨⟨i, j⟩, hspan, rfl⟩ := List.mem_map.mp hmem
  have hrun := ((hruns.2 i j).mp hspan).2
  apply List.ne_nil_of_length_pos
  have hnonempty := hrun.nonempty
  have hinside := hrun.inside
  simp only [slice, List.length_take, List.length_drop]
  omega

end Tokens

end LarsSystem
