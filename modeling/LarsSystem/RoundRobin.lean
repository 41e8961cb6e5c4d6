import Mathlib.Algebra.Order.Group.Nat
import Mathlib.Data.Finset.Card
import Mathlib.Data.List.Rotate
import Mathlib.Data.Nat.ModEq

/-!
# Taking turns

A list is served round robin by taking its front and putting it at the end: after
`p` turns the front is entry `p` modulo the length. What a caller sees are the
entries at the turns `f 0, f 1, …` it is given. Every stretch of as many answers
as there are entries is a round, in which each entry comes once, exactly if any
`n` values of `f` in a row differ modulo `n`. They do if `f` counts in ones; they
do not if it counts in ones and in twos by turns.
-/

namespace LarsSystem.RoundRobin

universe u

/-! ## Turns -/

section Turns

variable {α : Type u}

def turn (l : List α) (hne : l ≠ []) (p : Nat) : α :=
  l.get ⟨p % l.length, Nat.mod_lt p (List.length_pos_iff.mpr hne)⟩

theorem turn_mem (l : List α) (hne : l ≠ []) (p : Nat) : turn l hne p ∈ l := List.get_mem _ _

/-- Taking the front of the list after `p` turns. -/
theorem rotate_eq_cons (l : List α) (hne : l ≠ []) (p : Nat) :
    ∃ rest, l.rotate p = turn l hne p :: rest ∧ rest ++ [turn l hne p] = l.rotate (p + 1) := by
  have hpos : 0 < (l.rotate p).length := by
    rw [List.length_rotate]
    exact List.length_pos_iff.mpr hne
  cases hrotate : l.rotate p with
  | nil =>
    rw [hrotate] at hpos
    exact absurd hpos (Nat.lt_irrefl 0)
  | cons a rest =>
    have hfront : a = turn l hne p := by
      have hget := List.getElem_rotate l p 0 hpos
      simp only [hrotate, List.getElem_cons_zero, Nat.zero_add] at hget
      exact hget
    refine ⟨rest, by rw [hfront], ?_⟩
    rw [← List.rotate_rotate, hrotate, ← hfront, List.rotate_cons_succ, List.rotate_zero]

theorem turn_eq_iff {l : List α} (hnodup : l.Nodup) (hne : l ≠ []) (p q : Nat) :
    turn l hne p = turn l hne q ↔ p ≡ q [MOD l.length] := by
  unfold turn
  rw [List.Nodup.get_inj_iff hnodup, Fin.mk.injEq]
  rfl

end Turns

/-! ## Windows -/

/-- Any `n` values in a row differ modulo `n`. -/
def Windows (n : Nat) (f : Nat → Nat) : Prop :=
  ∀ j k, j < k → k < j + n → ¬ f j ≡ f k [MOD n]

theorem windows_of_ones {n : Nat} {f : Nat → Nat} (hone : ∀ i, f (i + 1) = f i + 1) :
    Windows n f := by
  have hfrom : ∀ j d, f (j + d) = f j + d := by
    intro j d
    induction d with
    | zero => rfl
    | succ d ih => rw [← Nat.add_assoc, hone, ih, Nat.add_assoc]
  intro j k hjk hkn hmod
  obtain ⟨d, rfl⟩ := Nat.exists_eq_add_of_le (Nat.le_of_lt hjk)
  rw [hfrom] at hmod
  have hdvd : n ∣ d := by
    have hzero : f j + d ≡ f j + 0 [MOD n] := hmod.symm
    exact (Nat.modEq_zero_iff_dvd).mp (Nat.ModEq.add_left_cancel' (f j) hzero)
  have hle := Nat.le_of_dvd (by omega) hdvd
  omega

theorem windows_one (f : Nat → Nat) : Windows 1 f := by
  intro j k hjk hk
  omega

/-- Among `n + 1` values two agree modulo `n`, and only the first and the last can. -/
theorem Windows.periodic {n : Nat} {f : Nat → Nat} (hn : 0 < n) (hwindows : Windows n f)
    (i : Nat) : f i ≡ f (i + n) [MOD n] := by
  have hmaps : ∀ d ∈ Finset.range (n + 1), f (i + d) % n ∈ Finset.range n := by
    intro d _
    exact Finset.mem_range.mpr (Nat.mod_lt _ hn)
  have hcard : (Finset.range n).card < (Finset.range (n + 1)).card := by
    rw [Finset.card_range, Finset.card_range]
    exact Nat.lt_succ_self n
  have hfar : ∀ d e, d < e → e ≤ n → f (i + d) % n = f (i + e) % n → d = 0 ∧ e = n := by
    intro d e hde hen heq
    by_contra hnot
    exact hwindows (i + d) (i + e) (by omega) (by omega) heq
  obtain ⟨d, hd, e, he, hde, heq⟩ :=
    Finset.exists_ne_map_eq_of_card_lt_of_maps_to hcard hmaps
  rw [Finset.mem_range] at hd he
  rcases Nat.lt_or_gt_of_ne hde with hlt | hgt
  · obtain ⟨rfl, rfl⟩ := hfar d e hlt (by omega) heq
    exact heq
  · obtain ⟨rfl, rfl⟩ := hfar e d hgt (by omega) heq.symm
    exact heq.symm

/-- **Counting in ones and in twos by turns breaks a round.** -/
theorem not_windows_of_uneven {n : Nat} {f : Nat → Nat} (hn : 2 ≤ n)
    (hstep : ∀ i, f (i + 1) = f i + 1 ∨ f (i + 1) = f i + 2) {j : Nat}
    (huneven : f (j + 2) = f j + 3) : ¬ Windows n f := by
  intro hwindows
  have hbounds : ∀ d, f (j + 2) + d ≤ f (j + 2 + d) ∧ f (j + 2 + d) ≤ f (j + 2) + 2 * d := by
    intro d
    induction d with
    | zero => exact ⟨Nat.le_refl _, Nat.le_refl _⟩
    | succ d ih =>
      have hnext : j + 2 + (d + 1) = j + 2 + d + 1 := rfl
      rcases hstep (j + 2 + d) with hone | htwo
      · rw [hnext, hone]
        omega
      · rw [hnext, htwo]
        omega
  obtain ⟨hlow, hhigh⟩ := hbounds (n - 2)
  have hlast : j + 2 + (n - 2) = j + n := by omega
  rw [hlast, huneven] at hlow hhigh
  have hdvd : n ∣ f (j + n) - f j :=
    (Nat.modEq_iff_dvd' (by omega)).mp (hwindows.periodic (by omega) j)
  -- the round moved on by more than one length and less than two
  obtain ⟨c, hc⟩ := hdvd
  have hone : 1 < c := by
    by_contra hle
    have hmul : n * c ≤ n * 1 := Nat.mul_le_mul_left n (Nat.le_of_not_lt hle)
    omega
  have htwo : c < 2 := by
    by_contra hle
    have hmul : n * 2 ≤ n * c := Nat.mul_le_mul_left n (Nat.le_of_not_lt hle)
    omega
  omega

/-! ## Rounds -/

section Rounds

variable {α : Type u}

/-- Any stretch of `l` as long as `ref` holds the entries of `ref`, each once. -/
def Rounds (ref l : List α) : Prop :=
  ∀ i, i + ref.length ≤ l.length → ((l.drop i).take ref.length).Perm ref

/-- The first `N` answers. -/
def turns (ref : List α) (hne : ref ≠ []) (f : Nat → Nat) (N : Nat) : List α :=
  (List.range N).map fun i => turn ref hne (f i)

theorem length_turns (ref : List α) (hne : ref ≠ []) (f : Nat → Nat) (N : Nat) :
    (turns ref hne f N).length = N := by
  simp [turns]

/-- A stretch of answers. -/
theorem take_drop_turns (ref : List α) (hne : ref ≠ []) (f : Nat → Nat) {N i n : Nat}
    (hle : i + n ≤ N) :
    ((turns ref hne f N).drop i).take n = turns ref hne (fun d => f (i + d)) n := by
  apply List.ext_getElem
  · simp only [List.length_take, List.length_drop, length_turns]
    omega
  · intro d hd hd'
    simp [turns]

theorem nodup_turns_iff {ref : List α} (hnodup : ref.Nodup) (hne : ref ≠ []) (f : Nat → Nat)
    (n : Nat) :
    (turns ref hne f n).Nodup ↔ ∀ j k, j < k → k < n → ¬ f j ≡ f k [MOD ref.length] := by
  unfold turns
  rw [List.nodup_iff_pairwise_ne, List.pairwise_iff_getElem]
  simp only [List.length_map, List.length_range, List.getElem_map, List.getElem_range, ne_eq,
    turn_eq_iff hnodup]
  exact ⟨fun hall j k hjk hk => hall j k (by omega) hk hjk,
    fun hall j k _ hk hjk => hall j k hjk hk⟩

theorem perm_turns_iff {ref : List α} (hnodup : ref.Nodup) (hne : ref ≠ []) (f : Nat → Nat) :
    (turns ref hne f ref.length).Perm ref ↔ (turns ref hne f ref.length).Nodup := by
  constructor
  · intro hperm
    exact hperm.nodup_iff.mpr hnodup
  · intro hdiff
    have hsub : turns ref hne f ref.length ⊆ ref := by
      intro a ha
      obtain ⟨i, -, rfl⟩ := List.mem_map.mp ha
      exact turn_mem ref hne _
    exact (hdiff.subperm hsub).perm_of_length_le (by rw [length_turns])

/-- **A run of any length has only full rounds exactly if the turns differ.** -/
theorem rounds_turns_iff {ref : List α} (hnodup : ref.Nodup) (hne : ref ≠ []) (f : Nat → Nat) :
    (∀ N, Rounds ref (turns ref hne f N)) ↔ Windows ref.length f := by
  have hround : ∀ N i, i + ref.length ≤ N →
      ((((turns ref hne f N).drop i).take ref.length).Perm ref ↔
        ∀ j k, j < k → k < ref.length → ¬ f (i + j) ≡ f (i + k) [MOD ref.length]) := by
    intro N i hle
    rw [take_drop_turns ref hne f hle, perm_turns_iff hnodup hne, nodup_turns_iff hnodup hne]
  constructor
  · intro hall j k hjk hk
    have hperm := hall (j + ref.length) j (by rw [length_turns])
    obtain ⟨d, rfl⟩ := Nat.exists_eq_add_of_le (Nat.le_of_lt hjk)
    exact (hround _ j (Nat.le_refl _)).mp hperm 0 d (by omega) (by omega)
  · intro hwindows N i hle
    rw [length_turns] at hle
    apply (hround N i hle).mpr
    intro j k hjk hk
    exact hwindows (i + j) (i + k) (by omega) (by omega)

end Rounds

end LarsSystem.RoundRobin
