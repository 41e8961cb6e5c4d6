import LarsSystem.HostRotation

/-!
# When an overload host is tried

The counter lets `probe_num` calls pass between two probes, if it starts at zero.
A probe leaves it at zero; the constructor does not set it. What a probe answers
is another matter: where some hosts are idle, one of them replaces the overload
host in the answer.
-/

namespace LarsSystem.Agent

open LarsSystem.MachineWord
open LarsSystem.RoundRobin

namespace LoadBalance

open Rotor

/-- An answer without an overload host: an idle host, or that there is none. -/
def Spared (lb : LoadBalance) (ret : BitVec 32) (h : Option HostEntry) : Prop :=
  (∀ host ∈ lb.overloadHosts, h ≠ some host) ∧
    if lb.idleList = [] then ret = RET_OVERLOAD ∧ h = none
    else ret = RET_SUCC ∧ ∃ host ∈ lb.idleHosts, h = some host

/-- The front of the overload list is in the answer, and goes to the end of the list. -/
def Probed (before : LoadBalance) (ret : BitVec 32) (h : Option HostEntry)
    (after : LoadBalance) : Prop :=
  ret = RET_SUCC ∧ h = before.overloadHosts.head? ∧
    after.overloadList = before.overloadList.rotate 1

/-- Call `i`, counted from a state in which the count starts, follows `i` calls of which
    every `probe_num + 1`-th turned the overload list, and is a probe if its turn has come. -/
def Cadence (cfg : LbConfig) (lb : LoadBalance) : Prop :=
  ∀ i, ∃ answers before ret h after,
    lb.choices cfg i = Except.ok (answers, before) ∧
      before.choiceOneHost cfg = Except.ok (ret, h, after) ∧
      before.overloadList = lb.overloadList.rotate (i / (cfg.probeNum.toNat + 1)) ∧
      if i % (cfg.probeNum.toNat + 1) < cfg.probeNum.toNat then lb.Spared ret h
      else Probed before ret h after

/-- The counter at which the calls that probe are the last of every `probe_num + 1`. -/
def Counted (cfg : LbConfig) (lb : LoadBalance) : Prop :=
  lb.accessCnt = 0 ∨ (cfg.probeNum = 0 ∧ 0 ≤ lb.accessCnt)

/-! ## Where the count starts

Only `choice_one_host` changes the counter, so the first count starts at whatever
the constructor left in it. -/

theorem report_accessCnt {cfg : LbConfig} {lb lb' : LoadBalance} {ip port retcode : BitVec 32}
    (hreport : lb.report cfg ip port retcode = Except.ok lb') : lb'.accessCnt = lb.accessCnt :=
  (report_frame hreport).1

theorem insertHost_accessCnt (cfg : LbConfig) (lb : LoadBalance) (h : HostEntry) :
    (lb.insertHost cfg h).accessCnt = lb.accessCnt := by
  unfold insertHost
  split <;> rfl

theorem deleteHost_accessCnt {lb lb' : LoadBalance} {key : BitVec 64}
    (hdelete : lb.deleteHost key = Except.ok lb') : lb'.accessCnt = lb.accessCnt := by
  obtain ⟨p, hi, -, -, rfl⟩ := deleteHost_cases hdelete
  rfl

theorem update_accessCnt {cfg : LbConfig} {lb lb' : LoadBalance} {rsp : List HostEntry}
    (hupdate : lb.update cfg rsp = Except.ok lb') : lb'.accessCnt = lb.accessCnt := by
  have hinserted : (rsp.foldl (insertHost cfg) lb).accessCnt = lb.accessCnt :=
    List.foldlRecOn (motive := fun mid => mid.accessCnt = lb.accessCnt) rsp (insertHost cfg) rfl
      fun mid hkept h _ => (insertHost_accessCnt cfg mid h).trans hkept
  rw [update_eq cfg lb (ne_nil_of_update hupdate)] at hupdate
  refine Transition.foldlM_invariant (fun after => after.accessCnt = lb.accessCnt) ?_ hupdate
    hinserted
  intro before key after hdelete hkept
  exact (deleteHost_accessCnt hdelete).trans hkept

/-- After a probe the count starts anew. -/
theorem counted_after_probe {cfg : LbConfig} {lb : LoadBalance} (hlive : lb.Live)
    (hover : lb.overloadList ≠ []) (hprobe : lb.accessCnt ≥ cfg.probeNum) :
    ∃ ret h after, lb.choiceOneHost cfg = Except.ok (ret, h, after) ∧ Counted cfg after := by
  have hsome : lb.idleList ++ lb.overloadList ≠ [] := fun hnil =>
    hover (List.append_eq_nil_iff.mp hnil).2
  have hchoice : ((start lb).state lb).choiceOneHost cfg = _ :=
    choice_state hlive hsome (start lb)
  rw [state_start] at hchoice
  refine ⟨_, _, _, hchoice, Or.inl ?_⟩
  simp only [state, next, if_neg hover, tick, start]
  exact if_pos hprobe

section Cadence

variable {cfg : LbConfig} {lb : LoadBalance} (hover : lb.overloadList ≠ [])
  (hprobeNum : 0 ≤ cfg.probeNum)
include hover hprobeNum

/-! ## The calls that probe -/

/-- **The calls that probe are the last of every `probe_num + 1` if the counter starts right.** -/
theorem probes_iff (hcounted : Counted cfg lb) (i : Nat) :
    (Rotor.after cfg lb i).accessCnt ≥ cfg.probeNum ↔
      i % (cfg.probeNum.toNat + 1) = cfg.probeNum.toNat := by
  rcases hcounted with hzero | ⟨hzero, hcnt⟩
  · have hlt : i % (cfg.probeNum.toNat + 1) < cfg.probeNum.toNat + 1 :=
      Nat.mod_lt i (Nat.succ_pos _)
    rw [accessCnt_after hover, hzero, tick_iterate_zero hprobeNum]
    generalize i % (cfg.probeNum.toNat + 1) = count at hlt
    omega
  · refine iff_of_true ?_ (by rw [hzero]; exact Nat.mod_one i)
    cases i with
    | zero =>
      rw [hzero]
      exact hcnt
    | succ i => exact probes_of_zero hover hzero (by omega) i

theorem overloadTurns_after (hcounted : Counted cfg lb) (i : Nat) :
    (Rotor.after cfg lb i).overloadTurns = i / (cfg.probeNum.toNat + 1) := by
  induction i with
  | zero => exact (Nat.zero_div _).symm
  | succ i ih =>
    have hprobes := probes_iff hover hprobeNum hcounted i
    rw [after_succ, Nat.succ_div]
    simp only [next, if_neg hover]
    by_cases hprobe : (Rotor.after cfg lb i).accessCnt ≥ cfg.probeNum
    · have hlast := Nat.dvd_of_mod_eq_zero (Nat.succ_mod_succ_eq_zero_iff.mpr (hprobes.mp hprobe))
      rw [if_pos hprobe, if_pos hlast, ih]
    · have hlast : ¬ cfg.probeNum.toNat + 1 ∣ i + 1 := fun hdvd =>
        hprobe (hprobes.mpr (Nat.succ_mod_succ_eq_zero_iff.mp (Nat.mod_eq_zero_of_dvd hdvd)))
      rw [if_neg hprobe, if_neg hlast, ih]
      rfl

end Cadence

/-! ## The answers -/

section Answers

variable {cfg : LbConfig} {lb : LoadBalance}

theorem answer_of_allOverload (hidle : lb.idleList = []) (r : Rotor) :
    answer cfg lb r =
      if r.accessCnt ≥ cfg.probeNum then
        (RET_SUCC, (lb.overloadHosts.rotate r.overloadTurns).head?)
      else (RET_OVERLOAD, none) := by
  rw [answer, if_pos hidle]

theorem overloadHosts_state (r : Rotor) :
    (r.state lb).overloadHosts = lb.overloadHosts.rotate r.overloadTurns := by
  unfold overloadHosts
  rw [← List.map_rotate]
  rfl

/-- The cadence, read off the rotor. -/
theorem cadence_iff (hlive : lb.Live) (hsome : lb.idleList ++ lb.overloadList ≠ []) :
    Cadence cfg lb ↔ ∀ i,
      ((Rotor.after cfg lb i).state lb).overloadList =
          lb.overloadList.rotate (i / (cfg.probeNum.toNat + 1)) ∧
        if i % (cfg.probeNum.toNat + 1) < cfg.probeNum.toNat then
          lb.Spared (answer cfg lb (Rotor.after cfg lb i)).1
            (answer cfg lb (Rotor.after cfg lb i)).2
        else
          Probed ((Rotor.after cfg lb i).state lb) (answer cfg lb (Rotor.after cfg lb i)).1
            (answer cfg lb (Rotor.after cfg lb i)).2 ((Rotor.after cfg lb (i + 1)).state lb) := by
  constructor
  · intro hcadence i
    obtain ⟨answers, before, ret, h, after, hrun, hchoice, hturned, hanswer⟩ := hcadence i
    rw [choices_after hlive hsome] at hrun
    cases hrun
    rw [choice_state hlive hsome, ← after_succ] at hchoice
    cases hchoice
    exact ⟨hturned, hanswer⟩
  · intro hall i
    obtain ⟨hturned, hanswer⟩ := hall i
    refine ⟨_, _, _, _, _, choices_after hlive hsome i, choice_state hlive hsome _, hturned, ?_⟩
    rw [← after_succ]
    exact hanswer

/-- Where no host is idle and the counter starts right, the cadence holds. -/
theorem cadence_of_counted (hlive : lb.Live) (hover : lb.overloadList ≠ [])
    (hprobeNum : 0 ≤ cfg.probeNum) (hidle : lb.idleList = []) (hcounted : Counted cfg lb) :
    Cadence cfg lb := by
  have hsome : lb.idleList ++ lb.overloadList ≠ [] := fun hnil =>
    hover (List.append_eq_nil_iff.mp hnil).2
  apply (cadence_iff hlive hsome).mpr
  intro i
  have hturns := overloadTurns_after hover hprobeNum hcounted i
  have hprobes := probes_iff hover hprobeNum hcounted i
  refine ⟨by rw [← hturns]; rfl, ?_⟩
  rw [answer_of_allOverload hidle]
  by_cases hlast : i % (cfg.probeNum.toNat + 1) = cfg.probeNum.toNat
  · rw [if_neg (by rw [hlast]; exact Nat.lt_irrefl _), if_pos (hprobes.mpr hlast)]
    refine ⟨rfl, by rw [overloadHosts_state], ?_⟩
    have hnext : (Rotor.after cfg lb (i + 1)).overloadTurns =
        (Rotor.after cfg lb i).overloadTurns + 1 := by
      rw [after_succ]
      simp only [next, if_neg hover]
      exact if_pos (hprobes.mpr hlast)
    simp only [state, hnext, List.rotate_rotate]
  · have hlt := Nat.lt_of_le_of_ne
      (Nat.le_of_lt_succ (Nat.mod_lt i (Nat.succ_pos cfg.probeNum.toNat))) hlast
    rw [if_pos hlt, if_neg (mt hprobes.mp hlast)]
    exact ⟨fun _ _ => by simp, by rw [if_pos hidle]; exact ⟨rfl, rfl⟩⟩

/-- Where some host is idle, what should be the first probe answers with an idle host. -/
theorem Cadence.no_idle (hlive : lb.Live) (hapart : lb.idleHosts.Disjoint lb.overloadHosts)
    (hover : lb.overloadList ≠ []) (hcadence : Cadence cfg lb) : lb.idleList = [] := by
  have hsome : lb.idleList ++ lb.overloadList ≠ [] := fun hnil =>
    hover (List.append_eq_nil_iff.mp hnil).2
  by_contra hidle
  obtain ⟨-, hprobed⟩ := (cadence_iff hlive hsome).mp hcadence cfg.probeNum.toNat
  rw [Nat.mod_eq_of_lt (Nat.lt_succ_self _), if_neg (Nat.lt_irrefl _)] at hprobed
  obtain ⟨-, hfront, -⟩ := hprobed
  have hover' : lb.overloadHosts ≠ [] := by simpa [overloadHosts] using hover
  have hidle' := idleHosts_ne_nil hidle
  rw [answer, if_neg hidle, overloadHosts_state] at hfront
  generalize (Rotor.after cfg lb cfg.probeNum.toNat) = r at hfront
  obtain ⟨rest, hcons, -⟩ := rotate_eq_cons lb.idleHosts hidle' (served cfg lb r)
  obtain ⟨rest', hcons', -⟩ := rotate_eq_cons lb.overloadHosts hover' r.overloadTurns
  rw [hcons, hcons', List.head?_cons, List.head?_cons] at hfront
  have hmem := turn_mem lb.overloadHosts hover' r.overloadTurns
  rw [← Option.some.inj hfront] at hmem
  exact hapart (turn_mem lb.idleHosts hidle' (served cfg lb r)) hmem

/-- Where no host is idle the answers tell the calls that probe from the others. -/
theorem Cadence.probes (hlive : lb.Live) (hover : lb.overloadList ≠ []) (hidle : lb.idleList = [])
    (hcadence : Cadence cfg lb) (i : Nat) :
    (Rotor.after cfg lb i).accessCnt ≥ cfg.probeNum ↔
      ¬ i % (cfg.probeNum.toNat + 1) < cfg.probeNum.toNat := by
  have hsome : lb.idleList ++ lb.overloadList ≠ [] := fun hnil =>
    hover (List.append_eq_nil_iff.mp hnil).2
  obtain ⟨-, hanswer⟩ := (cadence_iff hlive hsome).mp hcadence i
  rw [answer_of_allOverload hidle] at hanswer
  constructor
  · intro hprobe hspared
    rw [if_pos hspared, if_pos hprobe] at hanswer
    obtain ⟨-, hnone⟩ := hanswer
    rw [if_pos hidle] at hnone
    exact absurd hnone.1 (by simp [RET_SUCC, RET_OVERLOAD])
  · intro hlast
    by_contra hprobe
    rw [if_neg hlast, if_neg hprobe] at hanswer
    exact absurd hanswer.1 (by simp [RET_SUCC, RET_OVERLOAD])

theorem Cadence.counted (hlive : lb.Live) (hover : lb.overloadList ≠ [])
    (hprobeNum : 0 ≤ cfg.probeNum) (hidle : lb.idleList = []) (hcadence : Cadence cfg lb) :
    Counted cfg lb := by
  have hprobes := hcadence.probes hlive hover hidle
  have hat : ∀ i : Nat, lb.accessCnt + i ≤ cfg.probeNum →
      (Rotor.after cfg lb i).accessCnt = lb.accessCnt + i := by
    intro i hle
    rw [accessCnt_after hover, tick_iterate_of_le hle]
  by_cases hzero : cfg.probeNum = 0
  · refine Or.inr ⟨hzero, ?_⟩
    have hfirst := (hprobes 0).mpr (by rw [hzero]; exact Nat.not_lt_zero _)
    rw [hzero] at hfirst
    exact hfirst
  · left
    have hpos : 0 < cfg.probeNum.toNat := by omega
    have hspared := mt (hprobes 0).mp (not_not.mpr (by rw [Nat.zero_mod]; exact hpos))
    have hstart : lb.accessCnt < cfg.probeNum := Int.not_le.mp hspared
    have hlast := (hprobes cfg.probeNum.toNat).mpr
      (by rw [Nat.mod_eq_of_lt (Nat.lt_succ_self _)]; exact Nat.lt_irrefl _)
    rcases Int.lt_trichotomy lb.accessCnt 0 with hneg | heq | hgt
    · rw [hat _ (by omega)] at hlast
      omega
    · exact heq
    · -- the counter gets to `probe_num` too early
      have hindex : (cfg.probeNum - lb.accessCnt).toNat < cfg.probeNum.toNat := by omega
      have hearly := mt (hprobes (cfg.probeNum - lb.accessCnt).toNat).mp
        (not_not.mpr (by rw [Nat.mod_eq_of_lt (by omega)]; exact hindex))
      rw [hat _ (by omega)] at hearly
      omega

end Answers

/-- **When overload hosts are tried as the configuration says**: where no host is idle, and the
    count starts at zero. An idle host is put over the host of a probe, and the constructor
    does not set the counter. -/
theorem cadence_holds_iff (cfg : LbConfig) (lb : LoadBalance) (hlive : lb.Live)
    (hapart : lb.idleHosts.Disjoint lb.overloadHosts) (hover : lb.overloadList ≠ [])
    (hprobeNum : 0 ≤ cfg.probeNum) :
    lb.Cadence cfg ↔ lb.idleList = [] ∧
      (lb.accessCnt = 0 ∨ (cfg.probeNum = 0 ∧ 0 ≤ lb.accessCnt)) := by
  constructor
  · intro hcadence
    have hidle := hcadence.no_idle hlive hapart hover
    exact ⟨hidle, hcadence.counted hlive hover hprobeNum hidle⟩
  · rintro ⟨hidle, hcounted⟩
    exact cadence_of_counted hlive hover hprobeNum hidle hcounted

/-- Every host is overload. -/
def allOverload : LoadBalance :=
  { threeHosts with
    heap := ((threeHosts.heap.modify 0 (HostInfo.setOverload Balancer.defaultConfig)).modify 1
      (HostInfo.setOverload Balancer.defaultConfig)).modify 2
        (HostInfo.setOverload Balancer.defaultConfig)
    idleList := []
    overloadList := [0, 1, 2] }

theorem cadence_allOverload : allOverload.Cadence Balancer.defaultConfig :=
  (cadence_holds_iff Balancer.defaultConfig allOverload (by decide) (List.disjoint_nil_left _)
    (by decide) (by decide)).mpr ⟨rfl, Or.inl rfl⟩

/-- After ten calls an overload host is taken, and the answer is an idle one. -/
theorem probe_answers_idle :
    thirdOverload.Live ∧ thirdOverload.accessCnt = 0 ∧
      ¬ thirdOverload.Cadence Balancer.defaultConfig := by
  refine ⟨by decide, rfl, ?_⟩
  intro hcadence
  obtain ⟨answers, before, ret, h, after, hrun, hchoice, -, hprobed⟩ := hcadence 10
  cases hrun
  cases hchoice
  exact absurd hprobed.2.1 (by decide)

end LoadBalance

end LarsSystem.Agent
