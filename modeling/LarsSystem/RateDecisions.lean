import LarsSystem.HostHysteresis

/-!
# The rates behind the decisions of `report`

The virtual counters are started when a host is added and when it changes its
state, and in between they only grow, in 32 bits. Beside them runs a tally that
does not wrap; the counters are what is left of it. Where the tally is below 2^32,
the rate that `report` computes has a positive denominator and leads to the
decision that the tally leads to, but for a rate above the limit that is rounded
onto it, of which there is none below 2^30; where the tally gets to 2^32, a host with
one failure in as many calls is overload.
-/

namespace LarsSystem.Agent

open LarsSystem.MachineWord
open LarsSystem.Rounding
open LarsSystem.Transition

/-- The virtual successes and failures of a host since it was added or changed its state. -/
structure Tally where
  succ : Nat
  err : Nat

/-- A rate that `report` computed: the denominator, whether the host changed its state, and
    whether it should have by the tally. -/
structure Decision where
  denominator : BitVec 32
  made : Bool
  due : Bool

/-- The denominator is positive, and what was done is what was due. -/
def Decision.Right (d : Decision) : Prop := d.denominator ≠ 0 ∧ d.made = d.due

namespace Tally

/-- The tally of a host that has just been added, or has become idle or overload. -/
def fresh (cfg : LbConfig) (overload : Bool) : Tally :=
  if overload then ⟨0, cfg.initErrCnt.toNat⟩ else ⟨cfg.initSuccCnt.toNat, 0⟩

def count (t : Tally) (retcode : BitVec 32) : Tally :=
  if retcode = RET_SUCC then { t with succ := t.succ + 1 } else { t with err := t.err + 1 }

def total (t : Tally) : Nat := t.succ + t.err

/-- The overload condition of an idle host, and the idle condition of an overload host. -/
def failing (cfg : LbConfig) (t : Tally) (continErr : BitVec 32) : Bool :=
  decide (cfg.errRate.value < (t.err : ℚ) / t.total) || decide (cfg.continErrLimit ≤ continErr)

def recovered (cfg : LbConfig) (t : Tally) (continSucc : BitVec 32) : Bool :=
  decide (cfg.succRate.value < (t.succ : ℚ) / t.total) || decide (cfg.continSuccLimit ≤ continSucc)

/-- A rate above the limit is so by more than half of the last bit of the limit as a `double`. -/
def Clear (limit : Single) (num total : Nat) : Prop :=
  limit.value < (num : ℚ) / total →
    limit.value + halfUlp 53 limit.value < (num : ℚ) / total

/-- The division loses nothing of small tallies. -/
theorem clear_of_lt {limit : Single} {num total : Nat} (hle : num ≤ total) (hpos : 0 < total)
    (hsmall : total < 2 ^ 30) : Clear limit num total :=
  (add_halfUlp_lt_iff (p := 53) (by decide) hle hpos limit.bits hsmall).mpr

theorem clear_iff {limit : Single} {num total : Nat} : Clear limit num total ↔
    (limit.value + halfUlp 53 limit.value < (num : ℚ) / total ↔
      limit.value < (num : ℚ) / total) := by
  have hhalf := halfUlp_nonneg 53 limit.value
  exact ⟨fun hclear => ⟨lt_of_le_of_lt (le_add_of_nonneg_right hhalf), hclear⟩, Iff.mpr⟩

theorem total_count (t : Tally) (retcode : BitVec 32) :
    (t.count retcode).total = t.total + 1 := by
  unfold count total
  split
  · exact Nat.add_right_comm _ _ _
  · exact (Nat.add_assoc _ _ _).symm

end Tally

namespace HostInfo

/-- What `report` computes a rate for, and what it does then. -/
def decision (cfg : LbConfig) (hi : HostInfo) (t : Tally) (retcode : BitVec 32) :
    Option Decision :=
  let counted := hi.count retcode
  let made := (hi.afterReport cfg retcode).overload != hi.overload
  if hi.overload = false ∧ retcode ≠ RET_SUCC then
    some ⟨counted.vsucc + counted.verr, made, (t.count retcode).failing cfg counted.continErr⟩
  else if hi.overload = true ∧ retcode = RET_SUCC then
    some ⟨counted.vsucc + counted.verr, made, (t.count retcode).recovered cfg counted.continSucc⟩
  else none

/-- The tally behind a report. -/
def tallyAfter (cfg : LbConfig) (hi : HostInfo) (t : Tally) (retcode : BitVec 32) : Tally :=
  if (hi.afterReport cfg retcode).overload = hi.overload then t.count retcode
  else Tally.fresh cfg (hi.afterReport cfg retcode).overload

/-- `report` computes a rate: the call of an idle host failed, or that of an overload host
    succeeded. -/
def Computes (hi : HostInfo) (retcode : BitVec 32) : Prop :=
  hi.overload = false ∧ retcode ≠ RET_SUCC ∨ hi.overload = true ∧ retcode = RET_SUCC

/-- With the report the tally is below 2^32, and the rate is not one that is rounded onto the
    limit. -/
structure Fits (cfg : LbConfig) (hi : HostInfo) (t : Tally) : Prop where
  total : t.total < 2 ^ 32
  errRate : hi.overload = false → Tally.Clear cfg.errRate t.err t.total
  succRate : hi.overload = true → Tally.Clear cfg.succRate t.succ t.total

/-- The counters are what is left of the tally in 32 bits. -/
structure Tallied (hi : HostInfo) (t : Tally) : Prop where
  succ : hi.vsucc = BitVec.ofNat 32 t.succ
  err : hi.verr = BitVec.ofNat 32 t.err

/-! ## One report -/

section Report

variable {hi : HostInfo} {t : Tally} (htallied : hi.Tallied t)
include htallied

theorem Tallied.count (retcode : BitVec 32) : (hi.count retcode).Tallied (t.count retcode) := by
  obtain ⟨hsucc, herr⟩ := htallied
  unfold HostInfo.count Tally.count
  by_cases hret : retcode = RET_SUCC
  · rw [if_pos hret, if_pos hret]
    refine ⟨?_, herr⟩
    rw [BitVec.ofNat_add, ← hsucc]
    rfl
  · rw [if_neg hret, if_neg hret]
    refine ⟨hsucc, ?_⟩
    rw [BitVec.ofNat_add, ← herr]
    rfl

/-- A tally that fits is what the counters hold. -/
theorem Tallied.toNat (hfits : t.total < 2 ^ 32) :
    hi.vsucc.toNat = t.succ ∧ hi.verr.toNat = t.err := by
  have htotal : t.total = t.succ + t.err := rfl
  rw [htallied.succ, htallied.err, BitVec.toNat_ofNat, BitVec.toNat_ofNat,
    Nat.mod_eq_of_lt (by omega), Nat.mod_eq_of_lt (by omega)]
  exact ⟨rfl, rfl⟩

/-- The overload condition is that of the tally. -/
theorem Tallied.failing (cfg : LbConfig) (hfits : t.total < 2 ^ 32) (hpos : 0 < t.total)
    (hclear : Tally.Clear cfg.errRate t.err t.total) :
    hi.vsucc + hi.verr ≠ 0 ∧ hi.failing cfg = t.failing cfg hi.continErr := by
  obtain ⟨hsucc, herr⟩ := htallied.toNat hfits
  have htotal : hi.verr.toNat + hi.vsucc.toNat = t.total := by
    rw [hsucc, herr, Nat.add_comm]
    rfl
  obtain ⟨hne, hrate⟩ := rateExceeds_eq hi.verr hi.vsucc cfg.errRate
    (by rw [htotal]; exact hfits) (by rw [htotal]; exact hpos)
  rw [BitVec.add_comm] at hne
  refine ⟨hne, ?_⟩
  rw [BitVec.add_comm, htotal, herr, decide_eq_decide.mpr (Tally.clear_iff.mp hclear)] at hrate
  rw [HostInfo.failing, hrate, Tally.failing]

theorem Tallied.recovered (cfg : LbConfig) (hfits : t.total < 2 ^ 32) (hpos : 0 < t.total)
    (hclear : Tally.Clear cfg.succRate t.succ t.total) :
    hi.vsucc + hi.verr ≠ 0 ∧ hi.recovered cfg = t.recovered cfg hi.continSucc := by
  obtain ⟨hsucc, herr⟩ := htallied.toNat hfits
  have htotal : hi.vsucc.toNat + hi.verr.toNat = t.total := by
    rw [hsucc, herr]
    rfl
  obtain ⟨hne, hrate⟩ := rateExceeds_eq hi.vsucc hi.verr cfg.succRate
    (by rw [htotal]; exact hfits) (by rw [htotal]; exact hpos)
  refine ⟨hne, ?_⟩
  rw [htotal, hsucc, decide_eq_decide.mpr (Tally.clear_iff.mp hclear)] at hrate
  rw [HostInfo.recovered, hrate, Tally.recovered]

end Report

/-- What a report of a failure makes of an idle host. -/
theorem afterReport_idle {cfg : LbConfig} {hi : HostInfo} {retcode : BitVec 32}
    (hidle : hi.overload = false) (hfail : retcode ≠ RET_SUCC) :
    hi.afterReport cfg retcode =
      if (hi.count retcode).failing cfg then (hi.count retcode).setOverload cfg
      else hi.count retcode := by
  simp only [afterReport, overload_count, hidle, if_pos (And.intro trivial hfail)]

theorem afterReport_overload {cfg : LbConfig} {hi : HostInfo} (hover : hi.overload = true) :
    hi.afterReport cfg RET_SUCC =
      if (hi.count RET_SUCC).recovered cfg then (hi.count RET_SUCC).setIdle cfg
      else hi.count RET_SUCC := by
  simp [afterReport, hover]

theorem afterReport_cases (cfg : LbConfig) (hi : HostInfo) (retcode : BitVec 32) :
    hi.afterReport cfg retcode = hi.count retcode ∨
      hi.overload = false ∧ hi.afterReport cfg retcode = (hi.count retcode).setOverload cfg ∨
      hi.overload = true ∧ hi.afterReport cfg retcode = (hi.count retcode).setIdle cfg := by
  unfold afterReport
  simp only [overload_count]
  split
  · rename_i hidle
    split
    · exact Or.inr (Or.inl ⟨hidle.1, rfl⟩)
    · exact Or.inl rfl
  · split
    · rename_i hover
      split
      · exact Or.inr (Or.inr ⟨hover.1, rfl⟩)
      · exact Or.inl rfl
    · exact Or.inl rfl

theorem tallied_fresh {cfg : LbConfig} {hi : HostInfo} {overload : Bool}
    (hsucc : hi.vsucc = if overload then 0 else cfg.initSuccCnt)
    (herr : hi.verr = if overload then cfg.initErrCnt else 0) :
    hi.Tallied (Tally.fresh cfg overload) := by
  have hword : ∀ word : BitVec 32, word = BitVec.ofNat 32 word.toNat := by
    intro word
    rw [BitVec.ofNat_toNat, BitVec.setWidth_eq]
  cases overload with
  | false => exact ⟨hsucc.trans (hword cfg.initSuccCnt), herr⟩
  | true => exact ⟨hsucc, herr.trans (hword cfg.initErrCnt)⟩

theorem tallied_create (cfg : LbConfig) (ip port : BitVec 32) :
    (create ip port cfg.initSuccCnt).Tallied (Tally.fresh cfg false) :=
  tallied_fresh rfl rfl

section Step

variable {cfg : LbConfig} {hi : HostInfo} {t : Tally} (htallied : hi.Tallied t)
  {retcode : BitVec 32}
include htallied

/-- The tally follows the counters through a change of state. -/
theorem Tallied.afterReport :
    (hi.afterReport cfg retcode).Tallied (hi.tallyAfter cfg t retcode) := by
  unfold tallyAfter
  rcases afterReport_cases cfg hi retcode with hsame | ⟨hidle, hset⟩ | ⟨hover, hset⟩
  · rw [hsame, if_pos (overload_count hi retcode)]
    exact htallied.count retcode
  · rw [hset, hidle, if_neg (by simp [setOverload])]
    exact tallied_fresh rfl rfl
  · rw [hset, hover, if_neg (by simp [setIdle])]
    exact tallied_fresh rfl rfl

/-- **A decision by a tally that fits is right.** -/
theorem Tallied.decision_right (hfits : hi.Computes retcode → hi.Fits cfg (t.count retcode))
    {d : Decision} (hdecision : hi.decision cfg t retcode = some d) : d.Right := by
  have hcounted := htallied.count retcode
  have htotal := t.total_count retcode
  have hpos : 0 < (t.count retcode).total := by omega
  unfold decision at hdecision
  simp only at hdecision
  split at hdecision
  · rename_i hidle
    have hfits' := hfits (Or.inl hidle)
    obtain ⟨hne, hfailing⟩ :=
      hcounted.failing cfg hfits'.total hpos (hfits'.errRate hidle.1)
    cases hdecision
    refine ⟨hne, ?_⟩
    simp only [afterReport_idle hidle.1 hidle.2, ← hfailing, hidle.1]
    cases (hi.count retcode).failing cfg <;> simp [setOverload, hidle.1]
  · split at hdecision
    · rename_i hover
      have hfits' := hfits (Or.inr hover)
      obtain ⟨hover, rfl⟩ := hover
      obtain ⟨hne, hrecovered⟩ :=
        hcounted.recovered cfg hfits'.total hpos (hfits'.succRate hover)
      cases hdecision
      refine ⟨hne, ?_⟩
      simp only [afterReport_overload hover, ← hrecovered, hover]
      cases (hi.count RET_SUCC).recovered cfg <;> simp [setIdle, hover]
    · cases hdecision

end Step

end HostInfo

/-! ## Runs of reports -/

/-- A load balancer with the tally of one of its hosts and the decisions made about it. -/
structure ReportRun where
  lb : LoadBalance
  tally : Tally
  decisions : List Decision

namespace ReportRun

def hostInfo (lb : LoadBalance) (ip port : BitVec 32) : Option HostInfo :=
  (lb.hostMap.lookup (pack ip port)).bind lb.heap.cells

/-- A report of the host with the address. -/
def step (cfg : LbConfig) (ip port : BitVec 32) (s : ReportRun) (retcode : BitVec 32) :
    Except Fault ReportRun :=
  (s.lb.report cfg ip port retcode).map fun lb =>
    match hostInfo s.lb ip port with
    | none => { s with lb := lb }
    | some hi =>
      ⟨lb, hi.tallyAfter cfg s.tally retcode,
        s.decisions ++ (hi.decision cfg s.tally retcode).toList⟩

/-- The start of a run on a host that has just been added. -/
def added (cfg : LbConfig) (lb : LoadBalance) : ReportRun := ⟨lb, Tally.fresh cfg false, []⟩

def AllRight (s : ReportRun) : Prop := ∀ d ∈ s.decisions, d.Right

/-- Where the report computes a rate, the tally of the host with it is below 2^32, and no rate
    that is rounded onto the limit. -/
def TallyFits (cfg : LbConfig) (ip port : BitVec 32) (s : ReportRun) (retcode : BitVec 32) :
    Prop :=
  ∀ hi, hostInfo s.lb ip port = some hi → hi.Computes retcode →
    hi.Fits cfg (s.tally.count retcode)

/-- Below 2^30 no rate is rounded onto the limit. -/
theorem tallyFits_of_lt {cfg : LbConfig} {ip port : BitVec 32} {s : ReportRun}
    (hsmall : s.tally.total + 1 < 2 ^ 30) (retcode : BitVec 32) :
    s.TallyFits cfg ip port retcode := by
  intro hi _ _
  have htotal := s.tally.total_count retcode
  have hsum : (s.tally.count retcode).total =
    (s.tally.count retcode).succ + (s.tally.count retcode).err := rfl
  refine ⟨by omega, fun _ => ?_, fun _ => ?_⟩
  · exact Tally.clear_of_lt (by omega) (by omega) (by omega)
  · exact Tally.clear_of_lt (by omega) (by omega) (by omega)

/-- What a run keeps. -/
structure Inv (ip port : BitVec 32) (s : ReportRun) : Prop where
  host : ∃ p hi, s.lb.hostMap.lookup (pack ip port) = some p ∧ s.lb.heap.cells p = some hi ∧
    hi.Tallied s.tally
  right : s.AllRight

theorem Inv.report (cfg : LbConfig) {ip port : BitVec 32} {s : ReportRun} (hinv : s.Inv ip port)
    {retcode : BitVec 32} (hfits : s.TallyFits cfg ip port retcode) :
    ∃ t, s.step cfg ip port retcode = Except.ok t ∧ t.Inv ip port := by
  obtain ⟨⟨p, hi, hlookup, hcell, htallied⟩, hright⟩ := hinv
  obtain ⟨lb, hreport, hmap, hcell'⟩ := LoadBalance.report_host cfg hlookup hcell retcode
  have hhost : hostInfo s.lb ip port = some hi := by
    rw [hostInfo, hlookup]
    exact hcell
  have hstep : s.step cfg ip port retcode = Except.ok ⟨lb, hi.tallyAfter cfg s.tally retcode,
      s.decisions ++ (hi.decision cfg s.tally retcode).toList⟩ := by
    simp only [step, hreport, Except.map, hhost]
  refine ⟨_, hstep, ⟨p, _, by rw [hmap]; exact hlookup, hcell', htallied.afterReport⟩, ?_⟩
  intro d hd
  rcases List.mem_append.mp hd with hold | hnew
  · exact hright d hold
  · exact htallied.decision_right (hfits hi hhost) (Option.mem_toList.mp hnew)

/-- **The decisions use the true rates** in every run in which the tally of the host, from its
    creation or its last change of state on, is below 2^32 whenever a rate is computed, and the
    rate not one that is rounded onto the limit. -/
theorem decisions_right (cfg : LbConfig) (lb : LoadBalance) (ip port : BitVec 32) (p : Ptr)
    (hlookup : lb.hostMap.lookup (pack ip port) = some p)
    (hcell : lb.heap.cells p = some (HostInfo.create ip port cfg.initSuccCnt))
    (retcodes : List (BitVec 32))
    (hfits : Meets (step cfg ip port) (TallyFits cfg ip port) (added cfg lb) retcodes) :
    Safe (step cfg ip port) AllRight (fun _ => False) (added cfg lb) retcodes := by
  refine safe_of_meets (Inv ip port) (fun s hinv => hinv.right) ?_ ?_ hfits
  · intro s retcode hinv hfits
    obtain ⟨t, hstep, hinv'⟩ := hinv.report cfg hfits
    rw [hstep]
    exact hinv'
  · exact ⟨⟨p, _, hlookup, hcell, HostInfo.tallied_create cfg ip port⟩, nofun⟩

/-- A failed call of a new host. -/
theorem decisions_right_once :
    Safe (step Balancer.defaultConfig 1 80) AllRight (fun _ => False)
      (added Balancer.defaultConfig
        ((LoadBalance.create 1 1 0).insertHost Balancer.defaultConfig ⟨1, 80⟩)) [1] :=
  decisions_right Balancer.defaultConfig _ 1 80 0 rfl rfl [1]
    ⟨tallyFits_of_lt (by decide) 1, fun _ _ => trivial⟩

/-! ### The counters wrap -/

/-- The host is idle and has not failed. -/
def Idle (ip port : BitVec 32) (s : ReportRun) : Prop :=
  s.tally.err = 0 ∧ ∃ p hi, s.lb.hostMap.lookup (pack ip port) = some p ∧
    s.lb.heap.cells p = some hi ∧ hi.Tallied s.tally ∧ hi.overload = false

/-- A success of an idle host is only counted. -/
theorem Idle.succ (cfg : LbConfig) {ip port : BitVec 32} {s : ReportRun}
    (hidle : s.Idle ip port) :
    ∃ t, s.step cfg ip port RET_SUCC = Except.ok t ∧ t.Idle ip port ∧
      t.tally.total = s.tally.total + 1 := by
  obtain ⟨herr, p, hi, hlookup, hcell, htallied, hflag⟩ := hidle
  obtain ⟨lb, hreport, hmap, hcell'⟩ := LoadBalance.report_host cfg hlookup hcell RET_SUCC
  have hafter : hi.afterReport cfg RET_SUCC = hi.count RET_SUCC := by
    simp [HostInfo.afterReport, hflag]
  have htally : hi.tallyAfter cfg s.tally RET_SUCC = s.tally.count RET_SUCC := by
    rw [HostInfo.tallyAfter, hafter, if_pos (HostInfo.overload_count hi RET_SUCC)]
  have hhost : hostInfo s.lb ip port = some hi := by
    rw [hostInfo, hlookup]
    exact hcell
  rw [hafter] at hcell'
  have hstep : s.step cfg ip port RET_SUCC = Except.ok ⟨lb, s.tally.count RET_SUCC,
      s.decisions ++ (hi.decision cfg s.tally RET_SUCC).toList⟩ := by
    simp only [step, hreport, Except.map, hhost, htally]
  refine ⟨_, hstep, ⟨herr, p, _, by rw [hmap]; exact hlookup, hcell', htallied.count _, ?_⟩,
    s.tally.total_count RET_SUCC⟩
  rw [HostInfo.overload_count, hflag]

theorem Idle.successes (cfg : LbConfig) {ip port : BitVec 32} (n : Nat) {s : ReportRun}
    (hidle : s.Idle ip port) :
    ∃ t, (List.replicate n RET_SUCC).foldlM (step cfg ip port) s = Except.ok t ∧
      t.Idle ip port ∧ t.tally.total = s.tally.total + n := by
  obtain ⟨t, hrun, ⟨hidle', htotal⟩, -⟩ :
      ∃ t, (List.replicate n RET_SUCC).foldlM (step cfg ip port) s = Except.ok t ∧
        (t.Idle ip port ∧ t.tally.total = s.tally.total + n) ∧
        Meets (step cfg ip port) (fun _ _ => True) s (List.replicate n RET_SUCC) := by
    refine meets_replicate
      (fun i (t : ReportRun) => t.Idle ip port ∧ t.tally.total = s.tally.total + i) ?_
      ⟨hidle, rfl⟩
    rintro i t - ⟨hidle, htotal⟩
    obtain ⟨u, hstep, hidle', htotal'⟩ := hidle.succ cfg
    exact ⟨trivial, u, hstep, hidle', by omega⟩
  exact ⟨t, hrun, hidle', htotal⟩

/-- The failure that brings the tally of an idle host to 2^32: the denominator is 0. -/
theorem Idle.fail (cfg : LbConfig) {ip port : BitVec 32} {s : ReportRun} (hidle : s.Idle ip port)
    (hfull : s.tally.total + 1 = 2 ^ 32) {t : ReportRun}
    (hstep : s.step cfg ip port 1 = Except.ok t) : ¬ t.AllRight := by
  obtain ⟨herr, p, hi, hlookup, hcell, htallied, hflag⟩ := hidle
  obtain ⟨lb, hreport, -⟩ := LoadBalance.report_host cfg hlookup hcell 1
  have hhost : hostInfo s.lb ip port = some hi := by
    rw [hostInfo, hlookup]
    exact hcell
  simp only [step, hreport, Except.map, hhost, Except.ok.injEq] at hstep
  have hzero : (hi.count 1).vsucc + (hi.count 1).verr = 0 := by
    have hcounted := htallied.count 1
    have htotal : (s.tally.count 1).succ + (s.tally.count 1).err = 2 ^ 32 :=
      (s.tally.total_count 1).trans hfull
    rw [hcounted.succ, hcounted.err, ← BitVec.ofNat_add, htotal]
    rfl
  intro hright
  rw [← hstep] at hright
  have hdecision : hi.decision cfg s.tally 1 = some
      ⟨(hi.count 1).vsucc + (hi.count 1).verr, (hi.afterReport cfg 1).overload != hi.overload,
        (s.tally.count 1).failing cfg (hi.count 1).continErr⟩ := by
    simp only [HostInfo.decision]
    exact if_pos ⟨hflag, by decide⟩
  refine (hright _ (List.mem_append_right _ (Option.mem_toList.mpr hdecision))).1 hzero

/-- **One failure in 2^32 calls** is divided by 0. -/
theorem full_counters_divide_by_zero :
    ¬ ∀ retcodes : List (BitVec 32),
      Safe (step Balancer.defaultConfig 1 80) AllRight (fun _ => False)
        (added Balancer.defaultConfig
          ((LoadBalance.create 1 1 0).insertHost Balancer.defaultConfig ⟨1, 80⟩)) retcodes := by
  intro hsafe
  have hidle : (added Balancer.defaultConfig
      ((LoadBalance.create 1 1 0).insertHost Balancer.defaultConfig ⟨1, 80⟩)).Idle 1 80 :=
    ⟨rfl, 0, _, rfl, rfl, HostInfo.tallied_create Balancer.defaultConfig 1 80, rfl⟩
  have htotal : (added Balancer.defaultConfig
      ((LoadBalance.create 1 1 0).insertHost Balancer.defaultConfig ⟨1, 80⟩)).tally.total = 180 :=
    rfl
  have hrun := hsafe (List.replicate (2 ^ 32 - 181) RET_SUCC ++ [1])
  obtain ⟨s, hsuccesses, hidle', htotal'⟩ :=
    hidle.successes Balancer.defaultConfig (2 ^ 32 - 181)
  obtain ⟨-, hlands⟩ := hrun.rest hsuccesses
  cases hstep : s.step Balancer.defaultConfig 1 80 1 with
  | error fault =>
    rw [hstep] at hlands
    exact hlands
  | ok t =>
    rw [hstep] at hlands
    refine hidle'.fail Balancer.defaultConfig ?_ hstep hlands
    rw [htotal', htotal]
    omega

end ReportRun

end LarsSystem.Agent
