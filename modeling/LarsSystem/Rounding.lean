import Mathlib.Algebra.Order.Field.Rat
import Mathlib.Data.Int.Log
import Mathlib.Data.Rat.Floor
import Mathlib.Tactic.FieldSimp
import Mathlib.Tactic.Linarith

/-!
# Quotients rounded to a binary precision

A division in a binary format of `p` bits gives the nearest value that has `p` bits,
the even one of two. A limit of fewer bits is such a value, and even; so a rounded
quotient is above it exactly where the quotient itself is, by more than half of the last
of the `p` bits. A quotient of small numbers that is above a limit at all is above it by
more than that.
-/

namespace LarsSystem.Rounding

/-- The integer nearest to the quotient, the even one of two. -/
def nearestEven (num den : ℕ) : ℕ :=
  if 2 * (num % den) < den ∨ 2 * (num % den) = den ∧ num / den % 2 = 0 then num / den
  else num / den + 1

/-- By how many places a quotient is moved for `p` bits before the point. -/
def places (p num den : ℕ) : ℕ :=
  p + den.log2 - (num * 2 ^ (den.log2 + 1) / den).log2

/-- A quotient below `2 ^ p`, rounded to `p` bits. -/
def rounded (p num den : ℕ) : ℚ :=
  (nearestEven (num * 2 ^ places p num den) den : ℚ) / (2 ^ places p num den : ℕ)

theorem rounded_eq (p num den : ℕ) : rounded p num den =
    (nearestEven (num * 2 ^ places p num den) den : ℚ) / 2 ^ places p num den := by
  rw [rounded, Nat.cast_pow, Nat.cast_ofNat]

/-- The value has at most `t` bits. -/
def HasBits (t : ℕ) (x : ℚ) : Prop := ∃ m e : ℤ, |m| < 2 ^ t ∧ x = m * 2 ^ e

/-- Half of the last of the `p` bits of a value. -/
def halfUlp (p : ℕ) (x : ℚ) : ℚ := if x ≤ 0 then 0 else 2 ^ (Int.log 2 x - p)

/-! ## The nearest integer -/

section Nearest

variable {num den n : ℕ}

theorem le_nearestEven (hden : 0 < den) (hle : n * den ≤ num) : n ≤ nearestEven num den := by
  have hdiv : n ≤ num / den := (Nat.le_div_iff_mul_le hden).mpr hle
  unfold nearestEven
  split <;> omega

theorem nearestEven_le (hden : 0 < den) (hle : num ≤ n * den) : nearestEven num den ≤ n := by
  have hdiv : num / den ≤ n := Nat.div_le_of_le_mul (by rwa [Nat.mul_comm])
  rcases Nat.lt_or_eq_of_le hdiv with hlt | rfl
  · unfold nearestEven
    split <;> omega
  · -- there is no remainder
    have hrem : num % den = 0 := by
      have hnum := Nat.div_add_mod' num den
      omega
    unfold nearestEven
    rw [if_pos (Or.inl (by omega))]

/-- An even number is passed where the quotient is more than a half above it. -/
theorem lt_nearestEven_iff (hden : 0 < den) (heven : n % 2 = 0) :
    n < nearestEven num den ↔ (2 * n + 1) * den < 2 * num := by
  have hnum := Nat.div_add_mod' num den
  have hrem := Nat.mod_lt num hden
  have htwice : (2 * n + 1) * den = 2 * (n * den) + den := by
    rw [Nat.add_mul, Nat.mul_assoc, Nat.one_mul]
  rw [htwice]
  unfold nearestEven
  rcases Nat.lt_trichotomy n (num / den) with hlt | heq | hgt
  · have hmul := Nat.mul_le_mul_right den (Nat.succ_le_of_lt hlt)
    rw [Nat.succ_mul] at hmul
    split <;> omega
  · rw [← heq] at hnum ⊢
    split <;> omega
  · have hmul := Nat.mul_le_mul_right den (Nat.succ_le_of_lt hgt)
    rw [Nat.succ_mul] at hmul
    split <;> omega

end Nearest

/-! ## A quotient with its places -/

section Places

variable {p num den : ℕ}

/-- The quotient that is moved has `p` bits before the point. -/
theorem places_spec (hp : 0 < p) (hnum : 0 < num) (hle : num ≤ den) :
    2 ^ (p - 1) * den ≤ num * 2 ^ places p num den ∧
      num * 2 ^ places p num den < 2 ^ p * den := by
  have hden : 0 < den := Nat.lt_of_lt_of_le hnum hle
  have hs : den < 2 ^ (den.log2 + 1) := Nat.lt_log2_self
  have hk : places p num den = p + den.log2 - (num * 2 ^ (den.log2 + 1) / den).log2 := rfl
  generalize places p num den = k at hk ⊢
  generalize den.log2 = l at hs hk
  generalize hy : num * 2 ^ (l + 1) / den = y at hk
  have hfloor : y * den ≤ num * 2 ^ (l + 1) := by
    rw [← hy]
    exact Nat.div_mul_le_self _ _
  have hceil : num * 2 ^ (l + 1) < (y + 1) * den := by
    rw [← hy, Nat.mul_comm]
    exact Nat.lt_mul_div_succ _ hden |>.trans_le (Nat.le_of_eq (Nat.mul_comm _ _))
  have hne : y ≠ 0 := by
    rintro rfl
    have hmul := Nat.mul_le_mul_right (2 ^ (l + 1)) hnum
    omega
  have hlow := Nat.log2_self_le hne
  have hhigh := Nat.lt_log2_self (n := y)
  generalize y.log2 = e at hk hlow hhigh
  have hle' : e ≤ l + 1 := by
    have hmul := hfloor.trans (Nat.mul_le_mul_right (2 ^ (l + 1)) hle)
    rw [Nat.mul_comm den] at hmul
    have hpow := hlow.trans (Nat.le_of_mul_le_mul_right hmul hden)
    exact (Nat.pow_le_pow_iff_right (by decide)).mp hpow
  have hsum : p - 1 + (l + 1) = k + e := by omega
  have hpos : 0 < 2 ^ (l + 1) := Nat.pow_pos (by decide)
  constructor
  · refine Nat.le_of_mul_le_mul_right ?_ hpos
    calc 2 ^ (p - 1) * den * 2 ^ (l + 1)
        = 2 ^ k * (2 ^ e * den) := by
          rw [Nat.mul_right_comm, ← Nat.pow_add, hsum, Nat.pow_add, Nat.mul_assoc]
      _ ≤ 2 ^ k * (num * 2 ^ (l + 1)) :=
          Nat.mul_le_mul_left _ ((Nat.mul_le_mul_right den hlow).trans hfloor)
      _ = num * 2 ^ k * 2 ^ (l + 1) := by rw [← Nat.mul_assoc, Nat.mul_comm (2 ^ k)]
  · refine Nat.lt_of_mul_lt_mul_right (a := 2 ^ (l + 1)) ?_
    calc num * 2 ^ k * 2 ^ (l + 1)
        = 2 ^ k * (num * 2 ^ (l + 1)) := by rw [← Nat.mul_assoc, Nat.mul_comm (2 ^ k)]
      _ < 2 ^ k * (2 ^ (e + 1) * den) :=
          Nat.mul_lt_mul_of_pos_left (hceil.trans_le (Nat.mul_le_mul_right den hhigh))
            (Nat.pow_pos (by decide))
      _ = 2 ^ p * den * 2 ^ (l + 1) := by
          have hsum' : k + (e + 1) = p + (l + 1) := by omega
          rw [← Nat.mul_assoc, ← Nat.pow_add, hsum', Nat.pow_add, Nat.mul_right_comm]

end Places

/-! ## Rounding and a limit -/

section Limit

variable {p t num den : ℕ} {x : ℚ}

theorem two_zpow_pos (e : ℤ) : (0 : ℚ) < 2 ^ e := zpow_pos two_pos e

theorem halfUlp_nonneg (p : ℕ) (x : ℚ) : 0 ≤ halfUlp p x := by
  unfold halfUlp
  split
  · exact le_refl 0
  · exact (two_zpow_pos _).le

/-- The quotient and its rounding are in one binade, or at its ends. -/
theorem rounded_bounds (hp : 0 < p) (hnum : 0 < num) (hle : num ≤ den) :
    (2 : ℚ) ^ ((p : ℤ) - 1 - places p num den) ≤ num / den ∧
      (num : ℚ) / den < 2 ^ ((p : ℤ) - places p num den) ∧
      (2 : ℚ) ^ ((p : ℤ) - 1 - places p num den) ≤ rounded p num den ∧
      rounded p num den ≤ 2 ^ ((p : ℤ) - places p num den) := by
  obtain ⟨hlow, hhigh⟩ := places_spec hp hnum hle
  have hden : 0 < den := Nat.lt_of_lt_of_le hnum hle
  have hnear := le_nearestEven hden hlow
  have hnear' := nearestEven_le hden hhigh.le
  rw [rounded_eq]
  generalize nearestEven (num * 2 ^ places p num den) den = n at hnear hnear'
  generalize places p num den = k at hlow hhigh ⊢
  have hpow : (0 : ℚ) < 2 ^ k := by positivity
  have hdenQ : (0 : ℚ) < den := by exact_mod_cast hden
  have hfirst : (2 : ℚ) ^ ((p : ℤ) - 1 - k) = (2 ^ (p - 1) : ℕ) / 2 ^ k := by
    rw [zpow_sub₀ two_ne_zero, zpow_natCast]
    have hcast : (p : ℤ) - 1 = (p - 1 : ℕ) := by omega
    rw [hcast, zpow_natCast]
    norm_cast
  have hlast : (2 : ℚ) ^ ((p : ℤ) - k) = (2 ^ p : ℕ) / 2 ^ k := by
    rw [zpow_sub₀ two_ne_zero, zpow_natCast, zpow_natCast]
    norm_cast
  rw [hfirst, hlast]
  refine ⟨?_, ?_, ?_, ?_⟩
  · rw [div_le_div_iff₀ hpow hdenQ]
    exact_mod_cast hlow
  · rw [div_lt_div_iff₀ hdenQ hpow]
    exact_mod_cast hhigh
  · exact div_le_div_of_nonneg_right (by exact_mod_cast hnear) hpow.le
  · exact div_le_div_of_nonneg_right (by exact_mod_cast hnear') hpow.le

/-- A positive value with its bits. -/
theorem HasBits.pos (hbits : HasBits t x) (hx : 0 < x) :
    ∃ (m : ℕ) (e : ℤ), 0 < m ∧ m < 2 ^ t ∧ x = m * 2 ^ e := by
  obtain ⟨m, e, hm, rfl⟩ := hbits
  have hpos : 0 < m := by
    have hcast := (mul_pos_iff_of_pos_right (two_zpow_pos e)).mp hx
    exact_mod_cast hcast
  obtain ⟨n, rfl⟩ := Int.eq_ofNat_of_zero_le hpos.le
  refine ⟨n, e, by omega, ?_, rfl⟩
  rw [Nat.abs_cast] at hm
  exact_mod_cast hm

theorem two_zpow_le_iff (hx : 0 < x) {z : ℤ} : (2 : ℚ) ^ z ≤ x ↔ z ≤ Int.log 2 x := by
  exact_mod_cast Int.zpow_le_iff_le_log one_lt_two hx

theorem lt_two_zpow_iff (hx : 0 < x) {z : ℤ} : x < (2 : ℚ) ^ z ↔ Int.log 2 x < z := by
  exact_mod_cast Int.lt_zpow_iff_log_lt one_lt_two hx

/-- The first bit of a value is not far above its last. -/
theorem log_lt {m : ℕ} {e : ℤ} (hm : 0 < m) (hmt : m < 2 ^ t) :
    e ≤ Int.log 2 (m * 2 ^ e : ℚ) ∧ Int.log 2 (m * 2 ^ e : ℚ) < t + e := by
  have hmQ : (1 : ℚ) ≤ m := by exact_mod_cast hm
  have hpow := two_zpow_pos e
  have hx : (0 : ℚ) < m * 2 ^ e := by positivity
  constructor
  · rw [← two_zpow_le_iff hx]
    exact le_mul_of_one_le_left hpow.le hmQ
  · rw [← lt_two_zpow_iff hx, zpow_add₀ two_ne_zero, zpow_natCast]
    exact mul_lt_mul_of_pos_right (by exact_mod_cast hmt) hpow

theorem halfUlp_pos_eq (hx : 0 < x) : halfUlp p x = 2 ^ (Int.log 2 x - p) :=
  if_neg (not_le.mpr hx)

/-- Below a power of two there is room for half of a last bit. -/
theorem add_halfUlp_lt {m : ℕ} {e E : ℤ} (ht : t < p) (hm : 0 < m) (hmt : m < 2 ^ t)
    (hlt : (m * 2 ^ e : ℚ) < 2 ^ E) : (m * 2 ^ e : ℚ) + halfUlp p (m * 2 ^ e) < 2 ^ E := by
  have hmQ : (0 : ℚ) < m := by exact_mod_cast hm
  have hx : (0 : ℚ) < m * 2 ^ e := mul_pos hmQ (two_zpow_pos e)
  obtain ⟨hlow, hhigh⟩ := log_lt hm hmt (e := e)
  have hlog := (lt_two_zpow_iff hx).mp hlt
  have hulp : halfUlp p (m * 2 ^ e) < 2 ^ e := by
    rw [halfUlp_pos_eq hx]
    exact zpow_lt_zpow_right₀ one_lt_two (by omega)
  -- the power is a multiple of the last bit
  obtain ⟨d, hd⟩ : ∃ d : ℕ, E = d + e := ⟨(E - e).toNat, by omega⟩
  have hsplit : (2 : ℚ) ^ E = (2 ^ d : ℕ) * 2 ^ e := by
    rw [hd, zpow_add₀ two_ne_zero, zpow_natCast]
    norm_cast
  rw [hsplit] at hlt ⊢
  have hmd : m + 1 ≤ 2 ^ d := by
    have hcast := lt_of_mul_lt_mul_right hlt (two_zpow_pos e).le
    exact_mod_cast hcast
  calc (m * 2 ^ e : ℚ) + halfUlp p (m * 2 ^ e)
      < m * 2 ^ e + 2 ^ e := by linarith
    _ = (m + 1 : ℕ) * 2 ^ e := by push_cast; ring
    _ ≤ (2 ^ d : ℕ) * 2 ^ e := by
        exact mul_le_mul_of_nonneg_right (by exact_mod_cast hmd) (two_zpow_pos e).le

/-- In the binade of the quotient the limit is an even number of places. -/
theorem lt_rounded_iff_same {m : ℕ} {e : ℤ} (ht : t < p) (hm : 0 < m) (hmt : m < 2 ^ t)
    (hden : 0 < den)
    (hlow : (2 : ℚ) ^ ((p : ℤ) - 1 - places p num den) ≤ m * 2 ^ e)
    (hhigh : (m * 2 ^ e : ℚ) < 2 ^ ((p : ℤ) - places p num den)) :
    (m * 2 ^ e : ℚ) < rounded p num den ↔ (m * 2 ^ e : ℚ) + halfUlp p (m * 2 ^ e) < num / den := by
  have hmQ : (0 : ℚ) < m := by exact_mod_cast hm
  have hx : (0 : ℚ) < m * 2 ^ e := mul_pos hmQ (two_zpow_pos e)
  obtain ⟨-, hlog⟩ := log_lt hm hmt (e := e)
  have hbinade : Int.log 2 (m * 2 ^ e : ℚ) = p - 1 - places p num den := by
    have hle := (two_zpow_le_iff hx).mp hlow
    have hlt := (lt_two_zpow_iff hx).mp hhigh
    omega
  rw [rounded_eq]
  generalize places p num den = k at hbinade ⊢
  obtain ⟨d, hd⟩ : ∃ d : ℕ, e + k = d + 1 := ⟨(e + k - 1).toNat, by omega⟩
  have hpow : (0 : ℚ) < 2 ^ k := by positivity
  have hdenQ : (0 : ℚ) < den := by exact_mod_cast hden
  have hscaled : (m * 2 ^ e : ℚ) = (m * 2 ^ (d + 1) : ℕ) / 2 ^ k := by
    rw [eq_div_iff hpow.ne', mul_assoc, ← zpow_natCast (2 : ℚ) k, ← zpow_add₀ two_ne_zero, hd]
    norm_cast
  have hulp : halfUlp p (m * 2 ^ e) = 1 / 2 / 2 ^ k := by
    rw [halfUlp_pos_eq hx, hbinade]
    have hexp : (p : ℤ) - 1 - k - p = -1 - k := by ring
    rw [hexp, zpow_sub₀ two_ne_zero, zpow_natCast, zpow_neg_one, one_div]
  have heven : m * 2 ^ (d + 1) % 2 = 0 := by
    rw [Nat.pow_succ, ← Nat.mul_assoc, Nat.mul_mod_left]
  rw [hulp, hscaled, div_lt_div_iff_of_pos_right hpow, Nat.cast_lt,
    lt_nearestEven_iff hden heven, ← add_div, div_lt_div_iff₀ hpow hdenQ]
  generalize m * 2 ^ (d + 1) = n
  rw [← Nat.cast_lt (α := ℚ)]
  push_cast
  constructor
  · intro h
    linarith
  · intro h
    linarith

theorem rounded_zero (hden : 0 < den) : rounded p 0 den = 0 := by
  have hzero : nearestEven (0 * 2 ^ places p 0 den) den ≤ 0 :=
    nearestEven_le hden (by rw [Nat.zero_mul, Nat.zero_mul])
  rw [rounded, Nat.le_zero.mp hzero, Nat.cast_zero, zero_div]

/-- **A rounded quotient is above a limit of fewer bits where the quotient is, by more than half
    of the last bit.** -/
theorem lt_rounded_iff (ht : t < p) (hden : 0 < den) (hle : num ≤ den) (hbits : HasBits t x) :
    x < rounded p num den ↔ x + halfUlp p x < num / den := by
  have hdenQ : (0 : ℚ) < den := by exact_mod_cast hden
  rcases Nat.eq_zero_or_pos num with rfl | hnum
  · rw [rounded_zero hden, Nat.cast_zero, zero_div]
    constructor
    · intro hneg
      rwa [halfUlp, if_pos hneg.le, add_zero]
    · intro hsum
      exact lt_of_le_of_lt (le_add_of_nonneg_right (halfUlp_nonneg p x)) hsum
  obtain ⟨hquot, hquot', hround, hround'⟩ := rounded_bounds (p := p) (by omega) hnum hle
  have hbottom := two_zpow_pos ((p : ℤ) - 1 - places p num den)
  rcases le_or_gt x 0 with hneg | hx
  · rw [halfUlp, if_pos hneg, add_zero]
    exact iff_of_true (by linarith) (by linarith)
  obtain ⟨m, e, hm, hmt, rfl⟩ := hbits.pos hx
  have hulp := halfUlp_nonneg p (m * 2 ^ e)
  -- the limit is in a binade below that of the quotient, above it, or in it
  rcases lt_or_ge (m * 2 ^ e : ℚ) (2 ^ ((p : ℤ) - 1 - places p num den)) with hbelow | hlow
  · have hadd := add_halfUlp_lt ht hm hmt hbelow
    exact iff_of_true (by linarith) (by linarith)
  rcases lt_or_ge (m * 2 ^ e : ℚ) (2 ^ ((p : ℤ) - places p num den)) with hhigh | habove
  · exact lt_rounded_iff_same ht hm hmt hden hlow hhigh
  · exact iff_of_false (by linarith) (by linarith)

/-- **A quotient of small numbers that is above the limit is so by more than half of the last
    bit**, and is rounded to the same side. -/
theorem add_halfUlp_lt_iff (ht : t < p) (hle : num ≤ den) (hden : 0 < den) (hbits : HasBits t x)
    (hsmall : den < 2 ^ (p + 1 - t)) : x + halfUlp p x < num / den ↔ x < num / den := by
  have hdenQ : (0 : ℚ) < den := by exact_mod_cast hden
  have hnum : (num : ℚ) ≤ den := by exact_mod_cast hle
  refine ⟨fun h => lt_of_le_of_lt (le_add_of_nonneg_right (halfUlp_nonneg p x)) h, fun hlt => ?_⟩
  rcases le_or_gt x 0 with hneg | hx
  · rwa [halfUlp, if_pos hneg, add_zero]
  have hone : x < 1 := lt_of_lt_of_le hlt ((div_le_one hdenQ).mpr hnum)
  obtain ⟨m, e, hm, hmt, rfl⟩ := hbits.pos hx
  obtain ⟨he, hlog⟩ := log_lt hm hmt (e := e)
  -- the limit is below 1, so its last bit is behind the point
  obtain ⟨d, rfl⟩ : ∃ d : ℕ, e = -d := by
    have hneg : Int.log 2 (m * 2 ^ e : ℚ) < 0 := (lt_two_zpow_iff hx).mp (by simpa using hone)
    exact ⟨(-e).toNat, by omega⟩
  have hpow : (0 : ℚ) < 2 ^ d := by positivity
  have hlimit : (m * 2 ^ (-d : ℤ) : ℚ) = m / 2 ^ d := by
    rw [zpow_neg, zpow_natCast, div_eq_mul_inv]
  rw [hlimit] at hlt hx hlog ⊢
  have hulp : halfUlp p (m / 2 ^ d : ℚ) * (den * 2 ^ d) < 1 := by
    have hpow' : (0 : ℚ) < 2 ^ (p + 1 - t) := by positivity
    have hle' : halfUlp p (m / 2 ^ d : ℚ) ≤ (2 ^ (p + 1 - t) * 2 ^ d)⁻¹ := by
      rw [halfUlp_pos_eq hx, ← pow_add, ← zpow_natCast (2 : ℚ) (p + 1 - t + d), ← zpow_neg]
      exact zpow_le_zpow_right₀ one_le_two (by push_cast; omega)
    have hdenlt : (den : ℚ) < 2 ^ (p + 1 - t) := by exact_mod_cast hsmall
    calc halfUlp p (m / 2 ^ d : ℚ) * (den * 2 ^ d)
        ≤ (2 ^ (p + 1 - t) * 2 ^ d)⁻¹ * (den * 2 ^ d) :=
          mul_le_mul_of_nonneg_right hle' (by positivity)
      _ < (2 ^ (p + 1 - t) * 2 ^ d)⁻¹ * (2 ^ (p + 1 - t) * 2 ^ d) := by
          exact mul_lt_mul_of_pos_left (mul_lt_mul_of_pos_right hdenlt hpow) (by positivity)
      _ = 1 := inv_mul_cancel₀ (by positivity)
  have hgap : m * den + 1 ≤ num * 2 ^ d := by
    rw [div_lt_div_iff₀ hpow hdenQ] at hlt
    exact_mod_cast hlt
  rw [lt_div_iff₀ hdenQ, ← mul_lt_mul_iff_left₀ hpow]
  have hgapQ : (m * den + 1 : ℚ) ≤ num * 2 ^ d := by exact_mod_cast hgap
  calc (m / 2 ^ d + halfUlp p (m / 2 ^ d)) * den * 2 ^ d
      = m * den + halfUlp p (m / 2 ^ d) * (den * 2 ^ d) := by field_simp
    _ < num * 2 ^ d := by linarith

end Limit

end LarsSystem.Rounding
