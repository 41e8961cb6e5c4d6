import LarsSystem.LoadBalanceInvariant
import Mathlib.Algebra.Order.Field.Rat
import Mathlib.Tactic.Linarith

/-!
# When a host changes its list

`report` tests an idle host only after a failure and an overload host only after a
success. The other outcome moves the rate away from the limit and ends the streak,
so that the condition to leave a list, which the test excludes, stays excluded.
Both transitions start the counters anew. As long as no counter wraps, a host at
rest never meets the condition to leave its list.

The rate is rounded to a `double`. Up to a sum of 2^30 this makes no difference;
above, a host can stay although its rate exceeds the limit, by less than what the
division keeps.
-/

namespace LarsSystem.Agent

open LarsSystem.MachineWord
open LarsSystem.Rounding
open LarsSystem.Transition

/-! ## Rates -/

/-- The share of the first number in both is within the limit: exactly, where the sum is below
    2^30, and else up to half of the last bit of the limit as a `double`. -/
structure Within (limit : Single) (num other : BitVec 32) : Prop where
  nearly : (num.toNat : ℚ) ≤
    (limit.value + halfUlp 53 limit.value) * (num.toNat + other.toNat)
  exactly : num.toNat + other.toNat < 2 ^ 30 →
    (num.toNat : ℚ) ≤ limit.value * (num.toNat + other.toNat)

/-- A rate that is computed of counters that do not wrap. -/
theorem rateExceeds_eq (num other : BitVec 32) (limit : Single)
    (hfits : num.toNat + other.toNat < 2 ^ 32) (hpos : 0 < num.toNat + other.toNat) :
    num + other ≠ 0 ∧ rateExceeds num (num + other) limit = decide (limit.value +
      halfUlp 53 limit.value < (num.toNat : ℚ) / (num.toNat + other.toNat : Nat)) := by
  have hsum : (num + other).toNat = num.toNat + other.toNat := by
    rw [BitVec.toNat_add]
    exact Nat.mod_eq_of_lt hfits
  have hne : num + other ≠ 0 := by
    intro hzero
    rw [hzero] at hsum
    exact absurd hsum (Nat.ne_of_lt hpos)
  refine ⟨hne, ?_⟩
  rw [rateExceeds, if_neg hne, hsum, decide_eq_decide]
  exact lt_rounded_iff (by decide) hpos (Nat.le_add_right _ _) limit.bits

/-- The quotient in `double` does not exceed the limit. -/
theorem rateExceeds_eq_false_iff {num other : BitVec 32} {limit : Single}
    (hfits : num.toNat + other.toNat < 2 ^ 32) :
    rateExceeds num (num + other) limit = false ↔ Within limit num other := by
  rcases Nat.eq_zero_or_pos (num.toNat + other.toNat) with hzero | hpos
  · obtain rfl : num = 0 := BitVec.eq_of_toNat_eq (Nat.eq_zero_of_add_eq_zero_right hzero)
    obtain rfl : other = 0 := BitVec.eq_of_toNat_eq (Nat.eq_zero_of_add_eq_zero_left hzero)
    exact iff_of_true rfl ⟨by simp, fun _ => by simp⟩
  · have hpos' : (0 : ℚ) < num.toNat + other.toNat := by exact_mod_cast hpos
    rw [(rateExceeds_eq num other limit hfits hpos).2, decide_eq_false_iff_not, not_lt,
      Nat.cast_add, div_le_iff₀ hpos']
    refine ⟨fun hrate => ⟨hrate, fun hsmall => ?_⟩, Within.nearly⟩
    by_contra hover
    have hquot : limit.value < (num.toNat : ℚ) / (num.toNat + other.toNat : Nat) := by
      rw [lt_div_iff₀ (by exact_mod_cast hpos'), Nat.cast_add]
      exact not_le.mp hover
    have hmore := (add_halfUlp_lt_iff (p := 53) (by decide) (Nat.le_add_right _ _) hpos limit.bits
      hsmall).mpr hquot
    rw [lt_div_iff₀ (by exact_mod_cast hpos'), Nat.cast_add] at hmore
    exact absurd hrate (not_le.mpr hmore)

/-- The other outcome moves the rate down. -/
theorem rate_step {num total limit : ℚ} (hlimit : 0 ≤ limit) (hrate : num ≤ limit * total) :
    num ≤ limit * (total + 1) := by
  rw [mul_add, mul_one]
  linarith

theorem Within.step {limit : Single} {num other more : BitVec 32} (hlimit : 0 ≤ limit.value)
    (hwithin : Within limit num other) (hmore : more.toNat = other.toNat + 1) :
    Within limit num more := by
  have hhalf := halfUlp_nonneg 53 limit.value
  have hcast : (more.toNat : ℚ) = other.toNat + 1 := by exact_mod_cast hmore
  constructor
  · rw [hcast, ← add_assoc]
    exact rate_step (add_nonneg hlimit hhalf) hwithin.nearly
  · intro hsmall
    rw [hcast, ← add_assoc]
    exact rate_step hlimit (hwithin.exactly (by omega))

theorem within_zero {limit : Single} (hlimit : 0 ≤ limit.value) (other : BitVec 32) :
    Within limit 0 other := by
  have hhalf := halfUlp_nonneg 53 limit.value
  have hother : (0 : ℚ) ≤ 0 + other.toNat := by positivity
  exact ⟨mul_nonneg (add_nonneg hlimit hhalf) hother, fun _ => mul_nonneg hlimit hother⟩

namespace HostInfo

/-- **What is promised of a host between two reports.** -/
structure AtRest (cfg : LbConfig) (hi : HostInfo) : Prop where
  idle : hi.overload = false →
    hi.vsucc.toNat = cfg.initSuccCnt.toNat + hi.rsucc.toNat ∧ hi.verr = hi.rerr ∧
      Within cfg.errRate hi.verr hi.vsucc ∧ hi.continErr < cfg.continErrLimit
  overload : hi.overload = true →
    hi.vsucc = hi.rsucc ∧ hi.verr.toNat = cfg.initErrCnt.toNat + hi.rerr.toNat ∧
      Within cfg.succRate hi.vsucc hi.verr ∧ hi.continSucc < cfg.continSuccLimit
  streak : hi.continSucc = 0 ∨ hi.continErr = 0
  continSucc_le : hi.continSucc ≤ hi.rsucc
  continErr_le : hi.continErr ≤ hi.rerr
  stays : if hi.overload then hi.recovered cfg = false else hi.failing cfg = false

/-- The count of a report reaches 2^32 neither in a counter nor in the sum. -/
def CountFits (hi : HostInfo) : Prop := hi.vsucc.toNat + hi.verr.toNat + 1 < 2 ^ 32

/-! ## Counters -/

theorem toNat_add_one {word : BitVec 32} (hfits : word.toNat + 1 < 2 ^ 32) :
    (word + 1).toNat = word.toNat + 1 := by
  rw [BitVec.toNat_add]
  exact Nat.mod_eq_of_lt hfits

/-- The conditions of the configuration. -/
structure Sane (cfg : LbConfig) : Prop where
  errRate : 0 ≤ cfg.errRate.value
  succRate : 0 ≤ cfg.succRate.value
  continErrLimit : 1 ≤ cfg.continErrLimit
  continSuccLimit : 1 ≤ cfg.continSuccLimit

theorem zero_le_word (word : BitVec 32) : 0 ≤ word := by bv_omega

theorem zero_lt_of_one_le {word : BitVec 32} (hone : 1 ≤ word) : 0 < word := by bv_omega

section Steps

variable {cfg : LbConfig} {hi : HostInfo}

/-- The conditions to leave a list, in terms of the counters. -/
theorem failing_eq_false_iff (hfits : hi.vsucc.toNat + hi.verr.toNat < 2 ^ 32) :
    hi.failing cfg = false ↔
      Within cfg.errRate hi.verr hi.vsucc ∧ hi.continErr < cfg.continErrLimit := by
  unfold failing
  rw [Bool.or_eq_false_iff, BitVec.add_comm,
    rateExceeds_eq_false_iff (by omega), decide_eq_false_iff_not, BitVec.not_le]

theorem recovered_eq_false_iff (hfits : hi.vsucc.toNat + hi.verr.toNat < 2 ^ 32) :
    hi.recovered cfg = false ↔
      Within cfg.succRate hi.vsucc hi.verr ∧ hi.continSucc < cfg.continSuccLimit := by
  unfold recovered
  rw [Bool.or_eq_false_iff, rateExceeds_eq_false_iff hfits,
    decide_eq_false_iff_not, BitVec.not_le]

/-- Both conditions to leave a list are excluded by what is said of the rate and the streak. -/
theorem atRest_of (hfits : hi.vsucc.toNat + hi.verr.toNat < 2 ^ 32)
    (idle : hi.overload = false →
      hi.vsucc.toNat = cfg.initSuccCnt.toNat + hi.rsucc.toNat ∧ hi.verr = hi.rerr ∧
        Within cfg.errRate hi.verr hi.vsucc ∧ hi.continErr < cfg.continErrLimit)
    (overload : hi.overload = true →
      hi.vsucc = hi.rsucc ∧ hi.verr.toNat = cfg.initErrCnt.toNat + hi.rerr.toNat ∧
        Within cfg.succRate hi.vsucc hi.verr ∧ hi.continSucc < cfg.continSuccLimit)
    (streak : hi.continSucc = 0 ∨ hi.continErr = 0) (continSucc_le : hi.continSucc ≤ hi.rsucc)
    (continErr_le : hi.continErr ≤ hi.rerr) : AtRest cfg hi := by
  refine ⟨idle, overload, streak, continSucc_le, continErr_le, ?_⟩
  cases hflag : hi.overload with
  | true =>
    obtain ⟨-, -, hrate, hstreak⟩ := overload hflag
    exact (recovered_eq_false_iff hfits).mpr ⟨hrate, hstreak⟩
  | false =>
    obtain ⟨-, -, hrate, hstreak⟩ := idle hflag
    exact (failing_eq_false_iff hfits).mpr ⟨hrate, hstreak⟩

theorem atRest_setIdle (hsane : Sane cfg) (hi : HostInfo) : AtRest cfg (hi.setIdle cfg) := by
  apply atRest_of
  · exact cfg.initSuccCnt.isLt
  · intro _
    exact ⟨rfl, rfl, within_zero hsane.errRate _, zero_lt_of_one_le hsane.continErrLimit⟩
  · intro hover
    cases hover
  · exact Or.inl rfl
  · exact BitVec.le_refl _
  · exact BitVec.le_refl _

theorem atRest_setOverload (hsane : Sane cfg) (hi : HostInfo) :
    AtRest cfg (hi.setOverload cfg) := by
  apply atRest_of
  · rw [Nat.add_comm]
    exact cfg.initErrCnt.isLt
  · intro hidle
    cases hidle
  · intro _
    exact ⟨rfl, rfl, within_zero hsane.succRate _, zero_lt_of_one_le hsane.continSuccLimit⟩
  · exact Or.inl rfl
  · exact BitVec.le_refl _
  · exact BitVec.le_refl _

/-- A new host is one that has just become idle. -/
theorem atRest_create (hsane : Sane cfg) (ip port : BitVec 32) :
    AtRest cfg (create ip port cfg.initSuccCnt) :=
  atRest_setIdle hsane (create ip port cfg.initSuccCnt)

theorem succ_le_succ {low high : BitVec 32} (hle : low ≤ high) (hfits : high.toNat + 1 < 2 ^ 32) :
    low + 1 ≤ high + 1 := by bv_omega

/-- A success of an idle host is not tested. -/
theorem AtRest.idle_succ (hsane : Sane cfg) (hrest : AtRest cfg hi) (hfits : hi.CountFits)
    (hidle : hi.overload = false) : AtRest cfg (hi.count RET_SUCC) := by
  obtain ⟨hvsucc, hverr, hrate, -⟩ := hrest.idle hidle
  unfold CountFits at hfits
  have hv : (hi.vsucc + 1).toNat = hi.vsucc.toNat + 1 := toNat_add_one (by omega)
  have hr : (hi.rsucc + 1).toNat = hi.rsucc.toNat + 1 := toNat_add_one (by omega)
  apply atRest_of
  · change (hi.vsucc + 1).toNat + hi.verr.toNat < 2 ^ 32
    omega
  · intro _
    refine ⟨?_, hverr, hrate.step hsane.errRate hv, zero_lt_of_one_le hsane.continErrLimit⟩
    change (hi.vsucc + 1).toNat = cfg.initSuccCnt.toNat + (hi.rsucc + 1).toNat
    omega
  · intro hover
    exact absurd (hidle.symm.trans hover) (by simp)
  · exact Or.inr rfl
  · exact succ_le_succ hrest.continSucc_le (by omega)
  · exact zero_le_word _

/-- After a failure an idle host stays idle if the test says so. -/
theorem AtRest.idle_fail (hrest : AtRest cfg hi) (hfits : hi.CountFits)
    (hidle : hi.overload = false) {retcode : BitVec 32} (hfail : retcode ≠ RET_SUCC)
    (hstays : (hi.count retcode).failing cfg = false) : AtRest cfg (hi.count retcode) := by
  obtain ⟨hvsucc, hverr, -, -⟩ := hrest.idle hidle
  unfold CountFits at hfits
  have hv : (hi.verr + 1).toNat = hi.verr.toNat + 1 := toNat_add_one (by omega)
  unfold count at hstays ⊢
  rw [if_neg hfail] at hstays ⊢
  have hfits' : hi.vsucc.toNat + (hi.verr + 1).toNat < 2 ^ 32 := by omega
  obtain ⟨hrate, hstreak⟩ := (failing_eq_false_iff hfits').mp hstays
  apply atRest_of hfits'
  · intro _
    exact ⟨hvsucc, congrArg (· + 1) hverr, hrate, hstreak⟩
  · intro hover
    exact absurd (hidle.symm.trans hover) (by simp)
  · exact Or.inl rfl
  · exact zero_le_word _
  · exact succ_le_succ hrest.continErr_le (by rw [← hverr]; omega)

theorem AtRest.overload_fail (hsane : Sane cfg) (hrest : AtRest cfg hi) (hfits : hi.CountFits)
    (hover : hi.overload = true) {retcode : BitVec 32} (hfail : retcode ≠ RET_SUCC) :
    AtRest cfg (hi.count retcode) := by
  obtain ⟨hvsucc, hverr, hrate, -⟩ := hrest.overload hover
  unfold CountFits at hfits
  have hv : (hi.verr + 1).toNat = hi.verr.toNat + 1 := toNat_add_one (by omega)
  have hr : (hi.rerr + 1).toNat = hi.rerr.toNat + 1 := toNat_add_one (by omega)
  unfold count
  rw [if_neg hfail]
  apply atRest_of
  · change hi.vsucc.toNat + (hi.verr + 1).toNat < 2 ^ 32
    omega
  · intro hidle
    exact absurd (hover.symm.trans hidle) (by simp)
  · intro _
    refine ⟨hvsucc, ?_, hrate.step hsane.succRate hv, zero_lt_of_one_le hsane.continSuccLimit⟩
    change (hi.verr + 1).toNat = cfg.initErrCnt.toNat + (hi.rerr + 1).toNat
    omega
  · exact Or.inl rfl
  · exact zero_le_word _
  · exact succ_le_succ hrest.continErr_le (by omega)

theorem AtRest.overload_succ (hrest : AtRest cfg hi) (hfits : hi.CountFits)
    (hover : hi.overload = true) (hstays : (hi.count RET_SUCC).recovered cfg = false) :
    AtRest cfg (hi.count RET_SUCC) := by
  obtain ⟨hvsucc, hverr, -, -⟩ := hrest.overload hover
  unfold CountFits at hfits
  have hv : (hi.vsucc + 1).toNat = hi.vsucc.toNat + 1 := toNat_add_one (by omega)
  have hfits' : (hi.vsucc + 1).toNat + hi.verr.toNat < 2 ^ 32 := by omega
  obtain ⟨hrate, hstreak⟩ := (recovered_eq_false_iff hfits').mp hstays
  apply atRest_of hfits'
  · intro hidle
    exact absurd (hover.symm.trans hidle) (by simp)
  · intro _
    exact ⟨congrArg (· + 1) hvsucc, hverr, hrate, hstreak⟩
  · exact Or.inr rfl
  · exact succ_le_succ hrest.continSucc_le (by rw [← hvsucc]; omega)
  · exact zero_le_word _

/-- **One report leaves the host at rest.** -/
theorem AtRest.afterReport (hsane : Sane cfg) (hrest : AtRest cfg hi) (hfits : hi.CountFits)
    (retcode : BitVec 32) : AtRest cfg (hi.afterReport cfg retcode) := by
  unfold HostInfo.afterReport
  simp only [overload_count]
  by_cases hsucc : retcode = RET_SUCC
  · subst hsucc
    rw [if_neg fun h => h.2 rfl]
    cases hflag : hi.overload with
    | false =>
      rw [if_neg (by simp)]
      exact hrest.idle_succ hsane hfits hflag
    | true =>
      rw [if_pos ⟨rfl, rfl⟩]
      cases hstays : (hi.count RET_SUCC).recovered cfg with
      | true => exact atRest_setIdle hsane _
      | false => exact hrest.overload_succ hfits hflag hstays
  · cases hflag : hi.overload with
    | false =>
      rw [if_pos ⟨rfl, hsucc⟩]
      cases hstays : (hi.count retcode).failing cfg with
      | true => exact atRest_setOverload hsane _
      | false => exact hrest.idle_fail hfits hflag hsucc hstays
    | true =>
      rw [if_neg (by simp), if_neg fun h => hsucc h.2]
      exact hrest.overload_fail hsane hfits hflag hsucc

end Steps

end HostInfo

/-! ## Runs of reports -/

namespace LoadBalance

/-- A report changes the host it is about, and the map not at all. -/
theorem report_host (cfg : LbConfig) {lb : LoadBalance} {ip port : BitVec 32} {p : Ptr}
    {hi : HostInfo} (hlookup : lb.hostMap.lookup (pack ip port) = some p)
    (hcell : lb.heap.cells p = some hi) (retcode : BitVec 32) :
    ∃ lb', lb.report cfg ip port retcode = Except.ok lb' ∧ lb'.hostMap = lb.hostMap ∧
      lb'.heap.cells p = some (hi.afterReport cfg retcode) := by
  obtain ⟨heap, idle, overload, hreport, refiled⟩ := report_cases cfg hlookup hcell retcode
  exact ⟨_, hreport, rfl, refiled.self⟩

/-- The host with the address is in the map, and at rest. -/
def HostAtRest (cfg : LbConfig) (ip port : BitVec 32) (lb : LoadBalance) : Prop :=
  ∃ p hi, lb.hostMap.lookup (pack ip port) = some p ∧ lb.heap.cells p = some hi ∧
    hi.AtRest cfg

/-- The next report of the host makes no counter wrap. -/
def ReportFits (ip port : BitVec 32) (lb : LoadBalance) (_ : BitVec 32) : Prop :=
  ∀ p hi, lb.hostMap.lookup (pack ip port) = some p → lb.heap.cells p = some hi → hi.CountFits

/-- **A host is at rest after every report**, from its creation on and for any outcomes of
    the calls, as long as its counters do not wrap. -/
theorem reports_atRest (cfg : LbConfig) (hsane : HostInfo.Sane cfg) (lb : LoadBalance)
    (ip port : BitVec 32) (p : Ptr) (hlookup : lb.hostMap.lookup (pack ip port) = some p)
    (hcell : lb.heap.cells p = some (HostInfo.create ip port cfg.initSuccCnt))
    (retcodes : List (BitVec 32))
    (hfits : Meets (fun lb retcode => lb.report cfg ip port retcode) (ReportFits ip port) lb
      retcodes) :
    Safe (fun lb retcode => lb.report cfg ip port retcode) (HostAtRest cfg ip port)
      (fun _ => False) lb retcodes := by
  refine safe_of_meets (HostAtRest cfg ip port) (fun _ hrest => hrest) ?_
    ⟨p, _, hlookup, hcell, HostInfo.atRest_create hsane ip port⟩ hfits
  rintro lb retcode ⟨p, hi, hlookup, hcell, hrest⟩ hguard
  obtain ⟨lb', hreport, hmap, hcell'⟩ := report_host cfg hlookup hcell retcode
  rw [hreport]
  exact ⟨p, _, by rw [hmap]; exact hlookup, hcell',
    hrest.afterReport hsane (hguard p hi hlookup hcell) retcode⟩

/-- A failed call of a new host, under the defaults of the configuration. -/
theorem reports_atRest_once :
    Safe (fun lb retcode => lb.report Balancer.defaultConfig 1 80 retcode)
      (HostAtRest Balancer.defaultConfig 1 80) (fun _ => False)
      ((create 1 1 0).insertHost Balancer.defaultConfig ⟨1, 80⟩) [1] := by
  have hsane : HostInfo.Sane Balancer.defaultConfig := by
    constructor
    · change (0 : ℚ) ≤ 13421773 / 134217728
      norm_num
    · change (0 : ℚ) ≤ 15435039 / 16777216
      norm_num
    · decide
    · decide
  apply reports_atRest Balancer.defaultConfig hsane _ 1 80 0 rfl rfl
  refine ⟨?_, fun _ _ => trivial⟩
  intro p hi hlookup hcell
  cases hlookup
  cases hcell
  change 180 + 0 + 1 < 2 ^ 32
  decide

/-! ### A rate that is rounded onto the limit

With the default limit of 0.1 as a `float`, 114085070 failures among 1140850683 calls are
too many by less than the division keeps. -/

/-- The rate of an idle host as an exact number. -/
def ExactAtRest (cfg : LbConfig) (ip port : BitVec 32) (lb : LoadBalance) : Prop :=
  ∀ p hi, lb.hostMap.lookup (pack ip port) = some p → lb.heap.cells p = some hi →
    hi.overload = false →
      (hi.verr.toNat : ℚ) ≤ cfg.errRate.value * (hi.vsucc.toNat + hi.verr.toNat)

/-- The host is idle, with its counters. -/
def Idling (ip port : BitVec 32) (vsucc verr : Nat) (lb : LoadBalance) : Prop :=
  ∃ p hi, lb.hostMap.lookup (pack ip port) = some p ∧ lb.heap.cells p = some hi ∧
    hi.overload = false ∧ hi.vsucc.toNat = vsucc ∧ hi.verr.toNat = verr ∧
    hi.continErr.toNat ≤ verr

section Idling

variable {cfg : LbConfig} {ip port : BitVec 32} {vsucc verr : Nat} {lb : LoadBalance}

theorem Idling.fits (hidle : Idling ip port vsucc verr lb) (hfits : vsucc + verr + 1 < 2 ^ 32)
    (retcode : BitVec 32) : ReportFits ip port lb retcode := by
  obtain ⟨p, hi, hlookup, hcell, -, rfl, rfl, -⟩ := hidle
  intro p' hi' hlookup' hcell'
  cases hlookup.symm.trans hlookup'
  cases hcell.symm.trans hcell'
  exact hfits

theorem Idling.succ (hidle : Idling ip port vsucc verr lb) (hfits : vsucc + verr + 1 < 2 ^ 32) :
    ∃ lb', lb.report cfg ip port RET_SUCC = Except.ok lb' ∧
      Idling ip port (vsucc + 1) verr lb' := by
  obtain ⟨p, hi, hlookup, hcell, hflag, rfl, rfl, -⟩ := hidle
  obtain ⟨lb', hreport, hmap, hcell'⟩ := report_host cfg hlookup hcell RET_SUCC
  have hafter : hi.afterReport cfg RET_SUCC = hi.count RET_SUCC := by
    simp [HostInfo.afterReport, hflag]
  rw [hafter] at hcell'
  refine ⟨lb', hreport, p, _, by rw [hmap]; exact hlookup, hcell', ?_, ?_, rfl, Nat.zero_le _⟩
  · rw [HostInfo.overload_count, hflag]
  · exact HostInfo.toNat_add_one (by omega)

/-- A failure that is within the limit is only counted. -/
theorem Idling.fail (hidle : Idling ip port vsucc verr lb) (hfits : vsucc + verr + 1 < 2 ^ 32)
    (hstreak : verr + 1 < cfg.continErrLimit.toNat)
    (hrate : ∀ num other : BitVec 32, num.toNat = verr + 1 → other.toNat = vsucc →
      Within cfg.errRate num other) :
    ∃ lb', lb.report cfg ip port 1 = Except.ok lb' ∧ Idling ip port vsucc (verr + 1) lb' := by
  obtain ⟨p, hi, hlookup, hcell, hflag, rfl, rfl, hcontin⟩ := hidle
  obtain ⟨lb', hreport, hmap, hcell'⟩ := report_host cfg hlookup hcell 1
  have hverr : (hi.verr + 1).toNat = hi.verr.toNat + 1 := HostInfo.toNat_add_one (by omega)
  have hcontin' : (hi.continErr + 1).toNat = hi.continErr.toNat + 1 :=
    HostInfo.toNat_add_one (by omega)
  have hstays : (hi.count 1).failing cfg = false := by
    refine (HostInfo.failing_eq_false_iff ?_).mpr ⟨hrate _ _ hverr rfl, ?_⟩
    · change hi.vsucc.toNat + (hi.verr + 1).toNat < 2 ^ 32
      omega
    · change hi.continErr + 1 < cfg.continErrLimit
      rw [BitVec.lt_def]
      omega
  have hafter : hi.afterReport cfg 1 = hi.count 1 := by
    have hfail : (1 : BitVec 32) ≠ RET_SUCC := by decide
    simp only [HostInfo.afterReport, HostInfo.overload_count, hflag, hstays]
    rw [if_pos ⟨trivial, hfail⟩, if_neg Bool.false_ne_true]
  rw [hafter] at hcell'
  refine ⟨lb', hreport, p, _, by rw [hmap]; exact hlookup, hcell', ?_, rfl, hverr, ?_⟩
  · rw [HostInfo.overload_count, hflag]
  · change (hi.continErr + 1).toNat ≤ hi.verr.toNat + 1
    omega

end Idling

/-- The default limits, with a streak of failures that is not reached. -/
def patientConfig : LbConfig := { Balancer.defaultConfig with continErrLimit := 2147483647 }

theorem halfUlp_errRate : halfUlp 53 Balancer.defaultErrRate.value = 1 / 144115188075855872 := by
  have hvalue : Balancer.defaultErrRate.value = 13421773 / 134217728 := rfl
  have hpos : (0 : ℚ) < 13421773 / 134217728 := by norm_num
  have hlog : Int.log 2 (13421773 / 134217728 : ℚ) = -4 := by
    have hlow := (two_zpow_le_iff hpos (z := -4)).mp (by norm_num)
    have hhigh := (lt_two_zpow_iff hpos (z := -3)).mp (by norm_num)
    omega
  rw [hvalue, halfUlp_pos_eq hpos, hlog]
  norm_num

/-- Up to the last failure the quotient in `double` is at most the limit. -/
theorem within_errRate {num other : BitVec 32} (hnum : num.toNat ≤ 114085070)
    (hother : other.toNat = 1026765613) : Within patientConfig.errRate num other := by
  have hvalue : patientConfig.errRate.value = 13421773 / 134217728 := rfl
  have hhalf : halfUlp 53 patientConfig.errRate.value = 1 / 144115188075855872 := halfUlp_errRate
  have hnumQ : (num.toNat : ℚ) ≤ 114085070 := by exact_mod_cast hnum
  have hotherQ : (other.toNat : ℚ) = 1026765613 := by exact_mod_cast hother
  constructor
  · rw [hhalf, hvalue, hotherQ]
    linarith
  · intro hsmall
    rw [hvalue, hotherQ]
    have hsmallQ : (num.toNat : ℚ) + other.toNat < 2 ^ 30 := by exact_mod_cast hsmall
    linarith

/-- The host is new, and idle. -/
theorem idling_new (cfg : LbConfig) :
    Idling 1 80 cfg.initSuccCnt.toNat 0 ((create 1 1 0).insertHost cfg ⟨1, 80⟩) :=
  ⟨0, _, rfl, rfl, rfl, rfl, rfl, Nat.le_refl 0⟩

/-- **A host stays idle over the limit**: the failure that takes its rate over the limit is only
    counted. -/
theorem exact_rate_exceeded :
    ¬ ∀ retcodes : List (BitVec 32),
      Meets (fun lb retcode => lb.report patientConfig 1 80 retcode) (ReportFits 1 80)
        ((create 1 1 0).insertHost patientConfig ⟨1, 80⟩) retcodes →
      Safe (fun lb retcode => lb.report patientConfig 1 80 retcode)
        (ExactAtRest patientConfig 1 80) (fun _ => False)
        ((create 1 1 0).insertHost patientConfig ⟨1, 80⟩) retcodes := by
  intro hexact
  obtain ⟨lb, hrun, hidle, hmeets⟩ :
      ∃ lb, (List.replicate 1026765433 RET_SUCC).foldlM
          (fun lb retcode => report patientConfig lb 1 80 retcode)
          ((create 1 1 0).insertHost patientConfig ⟨1, 80⟩) = Except.ok lb ∧
        Idling 1 80 (180 + 1026765433) 0 lb ∧
        Meets (fun lb retcode => lb.report patientConfig 1 80 retcode) (ReportFits 1 80)
          ((create 1 1 0).insertHost patientConfig ⟨1, 80⟩)
          (List.replicate 1026765433 RET_SUCC) :=
    meets_replicate (fun i => Idling 1 80 (180 + i) 0)
      (fun i lb hi hidle => ⟨hidle.fits (by omega) _, hidle.succ (by omega)⟩)
      (idling_new patientConfig)
  obtain ⟨lb', hrun', hidle', hmeets'⟩ :
      ∃ lb', (List.replicate 114085070 1).foldlM
          (fun lb retcode => report patientConfig lb 1 80 retcode) lb = Except.ok lb' ∧
        Idling 1 80 1026765613 114085070 lb' ∧
        Meets (fun lb retcode => lb.report patientConfig 1 80 retcode) (ReportFits 1 80)
          lb (List.replicate 114085070 1) := by
    refine meets_replicate (fun i => Idling 1 80 1026765613 i) ?_ hidle
    intro i lb hi hidle
    have hlimit : patientConfig.continErrLimit.toNat = 2147483647 := rfl
    refine ⟨hidle.fits (by omega) _, hidle.fail (by omega) (by omega) ?_⟩
    intro num other hnum hother
    exact within_errRate (by omega) hother
  have hsafe := (hexact _ (hmeets.append hrun hmeets')).rest hrun
  obtain ⟨t, hends, hrest⟩ := hsafe.ends
  cases hrun'.symm.trans hends
  obtain ⟨p, hi, hlookup, hcell, hflag, hvsucc, hverr, -⟩ := hidle'
  have hrate := hrest p hi hlookup hcell hflag
  have hvalue : patientConfig.errRate.value = 13421773 / 134217728 := rfl
  rw [hvsucc, hverr, hvalue] at hrate
  norm_num at hrate

end LoadBalance

end LarsSystem.Agent
