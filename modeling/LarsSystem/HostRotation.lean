import LarsSystem.LoadBalanceInvariant
import LarsSystem.RoundRobin

/-!
# Runs of `choice_one_host`

Between two updates or reports the calls only rotate the two lists and move the
counter, so the state after any number of calls is a rotor: the counter and how
often each list was turned. Where all hosts are idle a call turns the idle list
once and answers with its front. Where some are overload, a call that does not
probe turns it twice and answers with the second host, a call that probes turns
it once: the answers are then not round robin, except where one host is all there
is to choose from, or where every call after the first is a probe.
-/

namespace LarsSystem.Agent

open LarsSystem.MachineWord
open LarsSystem.RoundRobin

namespace LoadBalance

/-- The address of a host. -/
def address (lb : LoadBalance) (p : Ptr) : HostEntry :=
  match lb.heap.cells p with
  | none => ⟨0, 0⟩
  | some hi => ⟨hi.ip, hi.port⟩

def idleHosts (lb : LoadBalance) : List HostEntry := lb.idleList.map lb.address

def overloadHosts (lb : LoadBalance) : List HostEntry := lb.overloadList.map lb.address

/-- Every host in a list is there. -/
def Live (lb : LoadBalance) : Prop :=
  ∀ p ∈ lb.idleList ++ lb.overloadList, (lb.heap.cells p).isSome = true

instance (lb : LoadBalance) : Decidable lb.Live :=
  inferInstanceAs
    (Decidable (∀ p ∈ lb.idleList ++ lb.overloadList, (lb.heap.cells p).isSome = true))

theorem Live.host {lb : LoadBalance} (hlive : lb.Live) {p : Ptr}
    (hp : p ∈ lb.idleList ++ lb.overloadList) : ∃ hi, lb.host p = Except.ok hi := by
  obtain ⟨hi, hcell⟩ := Option.isSome_iff_exists.mp (hlive p hp)
  exact ⟨hi, by simp only [LoadBalance.host, hcell]⟩

/-- What `N` calls answer, and the state after them. -/
def choices (cfg : LbConfig) :
    Nat → LoadBalance → Except Fault (List (BitVec 32 × Option HostEntry) × LoadBalance)
  | 0, lb => Except.ok ([], lb)
  | N + 1, lb =>
    match lb.choiceOneHost cfg with
    | Except.error fault => Except.error fault
    | Except.ok (ret, h, lb) =>
      match choices cfg N lb with
      | Except.error fault => Except.error fault
      | Except.ok (answers, lb) => Except.ok ((ret, h) :: answers, lb)

/-- The hosts of a sound map have different addresses. -/
theorem RepInv.apart {lb : LoadBalance} (hinv : RepInv lb) :
    (lb.idleHosts ++ lb.overloadHosts).Nodup := by
  unfold idleHosts overloadHosts
  rw [← List.map_append]
  refine List.Nodup.map_on ?_ hinv.nodup
  intro p hp q hq haddress
  obtain ⟨key, hkey⟩ := (hinv.listed p).mp hp
  obtain ⟨key', hkey'⟩ := (hinv.listed q).mp hq
  obtain ⟨hi, hcell, rfl⟩ := hinv.filed key p hkey
  obtain ⟨hi', hcell', rfl⟩ := hinv.filed key' q hkey'
  simp only [address, hcell, hcell', HostEntry.mk.injEq] at haddress
  have hsame : hi.key = hi'.key := by
    unfold HostInfo.key
    rw [haddress.1, haddress.2]
  rw [hsame, hkey'] at hkey
  exact (Option.some.inj hkey).symm

/-- Taking a host from a list that was turned `p` times. -/
theorem getHostFromList_rotate {lb lb' : LoadBalance} (hheap : lb'.heap = lb.heap) {l : List Ptr}
    (hne : l ≠ []) (hlive : ∀ p ∈ l, ∃ hi, lb.host p = Except.ok hi) (p : Nat) :
    lb'.getHostFromList (l.rotate p) =
      Except.ok (lb.address (turn l hne p), l.rotate (p + 1)) := by
  obtain ⟨rest, hcons, hrest⟩ := rotate_eq_cons l hne p
  obtain ⟨hi, hhost⟩ := hlive _ (turn_mem l hne p)
  have hhost' : lb'.host (turn l hne p) = Except.ok hi := by
    simp only [host, hheap]
    exact hhost
  have haddress : lb.address (turn l hne p) = ⟨hi.ip, hi.port⟩ := by
    unfold host at hhost
    unfold address
    split at hhost
    · cases hhost
    · cases hhost
      simp only [*]
  rw [hcons]
  simp only [getHostFromList, hhost', hrest, haddress]

end LoadBalance

/-! ## The rotor -/

/-- The counter, and how often each list was turned. -/
structure Rotor where
  accessCnt : Int
  idleTurns : Nat
  overloadTurns : Nat

/-- The counter of a call on which the overload list is not empty. -/
def tick (cfg : LbConfig) (accessCnt : Int) : Int :=
  if accessCnt ≥ cfg.probeNum then 0 else accessCnt + 1

namespace Rotor

open LoadBalance

def start (lb : LoadBalance) : Rotor := ⟨lb.accessCnt, 0, 0⟩

def state (lb : LoadBalance) (r : Rotor) : LoadBalance :=
  { lb with
    accessCnt := r.accessCnt
    idleList := lb.idleList.rotate r.idleTurns
    overloadList := lb.overloadList.rotate r.overloadTurns }

/-- The turn of the idle list whose host is in the answer. -/
def served (cfg : LbConfig) (lb : LoadBalance) (r : Rotor) : Nat :=
  if lb.overloadList = [] ∨ r.accessCnt ≥ cfg.probeNum then r.idleTurns else r.idleTurns + 1

def answer (cfg : LbConfig) (lb : LoadBalance) (r : Rotor) : BitVec 32 × Option HostEntry :=
  if lb.idleList = [] then
    if r.accessCnt ≥ cfg.probeNum then
      (RET_SUCC, (lb.overloadHosts.rotate r.overloadTurns).head?)
    else (RET_OVERLOAD, none)
  else (RET_SUCC, (lb.idleHosts.rotate (r.served cfg lb)).head?)

def next (cfg : LbConfig) (lb : LoadBalance) (r : Rotor) : Rotor :=
  if lb.overloadList = [] then { r with idleTurns := r.served cfg lb + 1 }
  else
    { accessCnt := tick cfg r.accessCnt
      idleTurns := r.served cfg lb + 1
      overloadTurns := if r.accessCnt ≥ cfg.probeNum then r.overloadTurns + 1 else r.overloadTurns }

@[simp] theorem state_start (lb : LoadBalance) : (start lb).state lb = lb := by
  simp [state, start]

theorem head?_rotate_map {lb : LoadBalance} {l : List Ptr} (hne : l ≠ []) (p : Nat) :
    ((l.map lb.address).rotate p).head? = some (lb.address (turn l hne p)) := by
  obtain ⟨rest, hcons, -⟩ := rotate_eq_cons l hne p
  rw [← List.map_rotate, hcons, List.map_cons, List.head?_cons]

section Refinement

variable {cfg : LbConfig} {lb : LoadBalance} (hlive : lb.Live)
include hlive

/-- **A call does what the rotor says.** -/
theorem choice_state (hsome : lb.idleList ++ lb.overloadList ≠ []) (r : Rotor) :
    (r.state lb).choiceOneHost cfg =
      Except.ok ((r.answer cfg lb).1, (r.answer cfg lb).2, (r.next cfg lb).state lb) := by
  have hliveIdle : ∀ p ∈ lb.idleList, ∃ hi, lb.host p = Except.ok hi :=
    fun p hp => hlive.host (List.mem_append_left _ hp)
  have hliveOver : ∀ p ∈ lb.overloadList, ∃ hi, lb.host p = Except.ok hi :=
    fun p hp => hlive.host (List.mem_append_right _ hp)
  have takeIdle : ∀ (hidle : lb.idleList ≠ []) accessCnt idle overload p,
      LoadBalance.getHostFromList
          { lb with accessCnt := accessCnt, idleList := idle, overloadList := overload }
          (lb.idleList.rotate p) =
        Except.ok (lb.address (turn lb.idleList hidle p), lb.idleList.rotate (p + 1)) :=
    fun hidle _ _ _ p => getHostFromList_rotate rfl hidle hliveIdle p
  have takeOver : ∀ (hover : lb.overloadList ≠ []) accessCnt idle overload p,
      LoadBalance.getHostFromList
          { lb with accessCnt := accessCnt, idleList := idle, overloadList := overload }
          (lb.overloadList.rotate p) =
        Except.ok (lb.address (turn lb.overloadList hover p), lb.overloadList.rotate (p + 1)) :=
    fun hover _ _ _ p => getHostFromList_rotate rfl hover hliveOver p
  unfold choiceOneHost
  by_cases hidle : lb.idleList = []
  · have hover : lb.overloadList ≠ [] := by rwa [hidle, List.nil_append] at hsome
    by_cases hprobe : r.accessCnt ≥ cfg.probeNum
    · simp [state, answer, next, tick, hidle, hover, hprobe, takeOver hover, overloadHosts,
        head?_rotate_map hover]
    · simp [state, answer, next, tick, hidle, hover, hprobe]
  · by_cases hover : lb.overloadList = []
    · simp [state, answer, next, served, hidle, hover, takeIdle hidle, idleHosts,
        head?_rotate_map hidle]
    · by_cases hprobe : r.accessCnt ≥ cfg.probeNum
      · simp [state, answer, next, tick, served, hidle, hover, hprobe, takeOver hover,
          takeIdle hidle, idleHosts, head?_rotate_map hidle]
      · simp [state, answer, next, tick, served, hidle, hover, hprobe, takeIdle hidle, idleHosts,
          head?_rotate_map hidle]

/-- **A run does what the rotor says**, call by call. -/
theorem choices_state (hsome : lb.idleList ++ lb.overloadList ≠ []) (N : Nat) (r : Rotor) :
    choices cfg N (r.state lb) =
      Except.ok ((List.range N).map fun i => answer cfg lb ((next cfg lb)^[i] r),
        ((next cfg lb)^[N] r).state lb) := by
  induction N generalizing r with
  | zero => rfl
  | succ N ih =>
    simp only [choices, choice_state hlive hsome r, ih (r.next cfg lb)]
    rw [List.range_succ_eq_map, List.map_cons, List.map_map]
    rfl

end Refinement

/-- The rotor after `i` calls. -/
def after (cfg : LbConfig) (lb : LoadBalance) (i : Nat) : Rotor := (next cfg lb)^[i] (start lb)

theorem after_succ (cfg : LbConfig) (lb : LoadBalance) (i : Nat) :
    after cfg lb (i + 1) = next cfg lb (after cfg lb i) :=
  Function.iterate_succ_apply' _ _ _

theorem choices_after {cfg : LbConfig} {lb : LoadBalance} (hlive : lb.Live)
    (hsome : lb.idleList ++ lb.overloadList ≠ []) (N : Nat) :
    choices cfg N lb =
      Except.ok ((List.range N).map fun i => answer cfg lb (after cfg lb i),
        (after cfg lb N).state lb) := by
  have hrun : choices cfg N ((start lb).state lb) = _ := choices_state hlive hsome N (start lb)
  rwa [state_start] at hrun

/-! ### The counter -/

section Counter

variable {cfg : LbConfig} {lb : LoadBalance}

theorem accessCnt_after (hover : lb.overloadList ≠ []) (i : Nat) :
    (after cfg lb i).accessCnt = (tick cfg)^[i] lb.accessCnt := by
  induction i with
  | zero => rfl
  | succ i ih =>
    rw [after_succ, Function.iterate_succ_apply', ← ih]
    simp only [next, if_neg hover]

/-- The counter counts up to `probe_num`. -/
theorem tick_iterate_of_le {accessCnt : Int} {i : Nat} (hle : accessCnt + i ≤ cfg.probeNum) :
    (tick cfg)^[i] accessCnt = accessCnt + i := by
  induction i with
  | zero => exact (Int.add_zero _).symm
  | succ i ih =>
    rw [Function.iterate_succ_apply', ih (by omega), tick, if_neg (by omega)]
    omega

/-- It gets there. -/
theorem exists_probe (cfg : LbConfig) (accessCnt : Int) :
    ∃ i, cfg.probeNum ≤ (tick cfg)^[i] accessCnt := by
  by_cases hprobe : cfg.probeNum ≤ accessCnt
  · exact ⟨0, hprobe⟩
  · refine ⟨(cfg.probeNum - accessCnt).toNat, ?_⟩
    rw [tick_iterate_of_le (by omega)]
    omega

/-- From a probe on, every `probe_num + 1`-th call probes. -/
theorem tick_iterate_zero (hprobeNum : 0 ≤ cfg.probeNum) (i : Nat) :
    (tick cfg)^[i] 0 = (i % (cfg.probeNum.toNat + 1) : Nat) := by
  induction i with
  | zero => simp
  | succ i ih =>
    have hlt : i % (cfg.probeNum.toNat + 1) < cfg.probeNum.toNat + 1 :=
      Nat.mod_lt i (Nat.succ_pos _)
    rw [Function.iterate_succ_apply', ih, tick, ← Nat.mod_add_mod]
    generalize i % (cfg.probeNum.toNat + 1) = count at hlt
    by_cases hprobe : count = cfg.probeNum.toNat
    · rw [if_pos (by omega), hprobe, Nat.mod_self]
      rfl
    · rw [if_neg (by omega), Nat.mod_eq_of_lt (by omega)]
      rfl

end Counter

/-! ### The idle hosts in the answers -/

section Served

variable {cfg : LbConfig} {lb : LoadBalance}

theorem idleTurns_after (i : Nat) :
    (after cfg lb (i + 1)).idleTurns = served cfg lb (after cfg lb i) + 1 := by
  rw [after_succ]
  unfold next
  split <;> rfl

theorem served_succ_of_once {i : Nat}
    (honce : lb.overloadList = [] ∨ (after cfg lb (i + 1)).accessCnt ≥ cfg.probeNum) :
    served cfg lb (after cfg lb (i + 1)) = served cfg lb (after cfg lb i) + 1 := by
  rw [← idleTurns_after, served, if_pos honce]

theorem served_succ_of_twice {i : Nat} (hover : lb.overloadList ≠ [])
    (htwice : (after cfg lb (i + 1)).accessCnt < cfg.probeNum) :
    served cfg lb (after cfg lb (i + 1)) = served cfg lb (after cfg lb i) + 2 := by
  rw [served, if_neg (not_or.mpr ⟨hover, Int.not_le.mpr htwice⟩), idleTurns_after]

theorem served_succ (i : Nat) :
    served cfg lb (after cfg lb (i + 1)) = served cfg lb (after cfg lb i) + 1 ∨
      served cfg lb (after cfg lb (i + 1)) = served cfg lb (after cfg lb i) + 2 := by
  by_cases honce : lb.overloadList = [] ∨ (after cfg lb (i + 1)).accessCnt ≥ cfg.probeNum
  · exact Or.inl (served_succ_of_once honce)
  · rw [not_or, ge_iff_le, Int.not_le] at honce
    exact Or.inr (served_succ_of_twice honce.1 honce.2)

/-- Of two calls in a row one probes and one does not. -/
theorem served_uneven (hover : lb.overloadList ≠ []) {i : Nat}
    (huneven : (after cfg lb (i + 1)).accessCnt ≥ cfg.probeNum ↔
      (after cfg lb (i + 2)).accessCnt < cfg.probeNum) :
    served cfg lb (after cfg lb (i + 2)) = served cfg lb (after cfg lb i) + 3 := by
  by_cases hfirst : (after cfg lb (i + 1)).accessCnt ≥ cfg.probeNum
  · rw [served_succ_of_twice hover (huneven.mp hfirst), served_succ_of_once (Or.inr hfirst)]
  · have hsecond := Int.not_lt.mp (mt huneven.mpr hfirst)
    rw [served_succ_of_once (Or.inr hsecond), served_succ_of_twice hover (Int.not_le.mp hfirst)]

/-- After a probe there are calls that do not, up to the next. -/
theorem exists_uneven_of_pos (hover : lb.overloadList ≠ []) (hpos : 0 < cfg.probeNum) :
    ∃ i, served cfg lb (after cfg lb (i + 2)) = served cfg lb (after cfg lb i) + 3 := by
  obtain ⟨i, hprobe⟩ := exists_probe cfg lb.accessCnt
  have hreset : (tick cfg)^[i + 1] lb.accessCnt = 0 := by
    rw [Function.iterate_succ_apply', tick, if_pos hprobe]
  have hfrom : ∀ d, (after cfg lb (i + 1 + d)).accessCnt =
      (d % (cfg.probeNum.toNat + 1) : Nat) := by
    intro d
    rw [accessCnt_after hover, Nat.add_comm, Function.iterate_add_apply, hreset,
      tick_iterate_zero (Int.le_of_lt hpos)]
  refine ⟨i + cfg.probeNum.toNat, served_uneven hover (iff_of_true ?_ ?_)⟩
  · have hat := hfrom cfg.probeNum.toNat
    rw [Nat.mod_eq_of_lt (Nat.lt_succ_self _)] at hat
    rw [Nat.add_right_comm, hat]
    omega
  · have hat := hfrom (cfg.probeNum.toNat + 1)
    rw [Nat.mod_self] at hat
    have hindex : i + cfg.probeNum.toNat + 2 = i + 1 + (cfg.probeNum.toNat + 1) := by omega
    rw [hindex, hat]
    exact hpos

/-- A counter far below zero: the calls before it gets to `probe_num` do not probe. -/
theorem exists_uneven_of_neg (hover : lb.overloadList ≠ []) (hzero : cfg.probeNum = 0)
    (hneg : lb.accessCnt ≤ -2) :
    ∃ i, served cfg lb (after cfg lb (i + 2)) = served cfg lb (after cfg lb i) + 3 := by
  refine ⟨(-2 - lb.accessCnt).toNat, served_uneven hover (iff_of_false ?_ ?_)⟩
  · rw [accessCnt_after hover, tick_iterate_of_le (by omega)]
    omega
  · rw [accessCnt_after hover, tick_iterate_of_le (by omega)]
    omega

/-- With `probe_num` 0 every call probes, the first apart. -/
theorem probes_of_zero (hover : lb.overloadList ≠ []) (hzero : cfg.probeNum = 0)
    (hcnt : -1 ≤ lb.accessCnt) (i : Nat) :
    (after cfg lb (i + 1)).accessCnt ≥ cfg.probeNum := by
  induction i with
  | zero =>
    rw [accessCnt_after hover, Function.iterate_one, tick]
    split <;> omega
  | succ i ih =>
    rw [after_succ]
    simp only [next, if_neg hover, tick, if_pos ih]
    omega

/-- **The turns served differ in every window exactly under the condition.** -/
theorem windows_served_iff (hidle : lb.idleList ≠ []) (hprobeNum : 0 ≤ cfg.probeNum) :
    Windows lb.idleList.length (fun i => served cfg lb (after cfg lb i)) ↔
      lb.overloadList = [] ∨ lb.idleList.length = 1 ∨
        (cfg.probeNum = 0 ∧ -1 ≤ lb.accessCnt) := by
  have hlength := List.length_pos_iff.mpr hidle
  constructor
  · intro hwindows
    by_contra hnot
    obtain ⟨hover, hone, hprobe⟩ : lb.overloadList ≠ [] ∧ lb.idleList.length ≠ 1 ∧
        ¬ (cfg.probeNum = 0 ∧ -1 ≤ lb.accessCnt) := by simpa only [not_or] using hnot
    obtain ⟨i, huneven⟩ : ∃ i, served cfg lb (after cfg lb (i + 2)) =
        served cfg lb (after cfg lb i) + 3 := by
      rcases Int.lt_or_eq_of_le hprobeNum with hpos | hzero
      · exact exists_uneven_of_pos hover hpos
      · exact exists_uneven_of_neg hover hzero.symm (by omega)
    exact not_windows_of_uneven (by omega) served_succ huneven hwindows
  · rintro (hover | hone | ⟨hzero, hcnt⟩)
    · exact windows_of_ones fun i => served_succ_of_once (Or.inl hover)
    · rw [hone]
      exact windows_one _
    · by_cases hover : lb.overloadList = []
      · exact windows_of_ones fun i => served_succ_of_once (Or.inl hover)
      · exact windows_of_ones fun i =>
          served_succ_of_once (Or.inr (probes_of_zero hover hzero hcnt i))

end Served

end Rotor

/-! ## Fairness -/

namespace LoadBalance

open Rotor

/-- The idle hosts in the answers. -/
def idleAnswers (lb : LoadBalance) (answers : List (BitVec 32 × Option HostEntry)) :
    List HostEntry :=
  (answers.filterMap Prod.snd).filter (· ∈ lb.idleHosts)

/-- However many calls are made, any of the answers in a row that carry an idle host, as
    many as there are idle hosts, carry each of them once. -/
def Fair (cfg : LbConfig) (lb : LoadBalance) : Prop :=
  ∀ N, ∃ answers after, lb.choices cfg N = Except.ok (answers, after) ∧
    Rounds lb.idleHosts (lb.idleAnswers answers)

theorem idleHosts_ne_nil {lb : LoadBalance} (hidle : lb.idleList ≠ []) : lb.idleHosts ≠ [] := by
  simpa [idleHosts] using hidle

/-- Every answer carries an idle host, the one whose turn it is. -/
theorem idleAnswers_after {lb : LoadBalance} (cfg : LbConfig) (hidle : lb.idleList ≠ []) (N : Nat) :
    lb.idleAnswers ((List.range N).map fun i => answer cfg lb (after cfg lb i)) =
      turns lb.idleHosts (idleHosts_ne_nil hidle) (fun i => served cfg lb (after cfg lb i)) N := by
  have hanswer : ∀ i, (answer cfg lb (after cfg lb i)).2 =
      some (turn lb.idleHosts (idleHosts_ne_nil hidle) (served cfg lb (after cfg lb i))) := by
    intro i
    obtain ⟨rest, hcons, -⟩ := rotate_eq_cons lb.idleHosts (idleHosts_ne_nil hidle)
      (served cfg lb (after cfg lb i))
    rw [answer, if_neg hidle, hcons, List.head?_cons]
  unfold idleAnswers turns
  rw [List.filterMap_map]
  simp only [Function.comp_def, hanswer]
  rw [List.filterMap_eq_map', List.filter_eq_self]
  intro h hh
  obtain ⟨i, -, rfl⟩ := List.mem_map.mp hh
  exact decide_eq_true (turn_mem _ _ _)

/-- **When the idle hosts take turns.** A call answers with the second host it takes, where
    some hosts are overload and the call does not probe; it answers with the first one
    otherwise. -/
theorem fair_iff (cfg : LbConfig) (lb : LoadBalance) (hlive : lb.Live)
    (hidle : lb.idleList ≠ []) (hdistinct : lb.idleHosts.Nodup) (hprobeNum : 0 ≤ cfg.probeNum) :
    lb.Fair cfg ↔ lb.overloadList = [] ∨ lb.idleList.length = 1 ∨
      (cfg.probeNum = 0 ∧ -1 ≤ lb.accessCnt) := by
  have hsome : lb.idleList ++ lb.overloadList ≠ [] := fun hnil =>
    hidle (List.append_eq_nil_iff.mp hnil).1
  have hlength : lb.idleHosts.length = lb.idleList.length := List.length_map _
  rw [← windows_served_iff hidle hprobeNum, ← hlength,
    ← rounds_turns_iff hdistinct (idleHosts_ne_nil hidle)]
  unfold Fair
  constructor
  · intro hfair N
    obtain ⟨answers, after, hrun, hrounds⟩ := hfair N
    rw [choices_after hlive hsome] at hrun
    cases hrun
    rwa [idleAnswers_after cfg hidle] at hrounds
  · intro hrounds N
    refine ⟨_, _, choices_after hlive hsome N, ?_⟩
    rw [idleAnswers_after cfg hidle]
    exact hrounds N

/-- Three hosts after an answer of the DNS service. -/
def threeHosts : LoadBalance :=
  [⟨1, 80⟩, ⟨2, 80⟩, ⟨3, 80⟩].foldl (insertHost Balancer.defaultConfig) (create 1 1 0)

theorem fair_threeHosts : threeHosts.Fair Balancer.defaultConfig :=
  (fair_iff Balancer.defaultConfig threeHosts (by decide) (by decide) (by decide)
    (by decide)).mpr (Or.inl rfl)

/-- The third of the hosts is overload. -/
def thirdOverload : LoadBalance :=
  { threeHosts with
    heap := threeHosts.heap.modify 2 (HostInfo.setOverload Balancer.defaultConfig)
    idleList := [0, 1]
    overloadList := [2] }

/-- Two calls in a row take two hosts each and answer with the second. -/
theorem second_host_again :
    thirdOverload.Live ∧ thirdOverload.idleHosts = [⟨1, 80⟩, ⟨2, 80⟩] ∧
      ¬ thirdOverload.Fair Balancer.defaultConfig := by
  refine ⟨by decide, by decide, ?_⟩
  intro hfair
  obtain ⟨answers, after, hrun, hrounds⟩ := hfair 2
  have hanswers : thirdOverload.idleAnswers answers = [⟨2, 80⟩, ⟨2, 80⟩] := by
    cases hrun
    decide
  have hperm := hrounds 0
  rw [hanswers] at hperm
  exact absurd (hperm (by decide)) (by decide)

end LoadBalance

end LarsSystem.Agent
