import LarsSystem.ListedHosts
import LarsSystem.RouteLb

/-!
# A `load_balance` is two queues of hosts

What a `load_balance` is for, without the map, the heap and the pointers: two queues
of host records. A choice takes the front of one of them to its end, a report
changes the record of a host and puts it to the end of the other queue when its
flag has changed, an answer of the DNS service takes out what it does not name and
appends what is new.

The code does as the queues do, answer by answer, for as long as it meets no host
that has left. So nothing of map, heap and pointers is to be seen in what callers
and the reporter get; and the first host that leaves is the last one that can: the
next answer, and a report for it, go wrong.
-/

namespace LarsSystem.Agent

open LarsSystem.MachineWord
open LarsSystem.Transition

def HostInfo.entry (hi : HostInfo) : HostEntry := ⟨hi.ip, hi.port⟩

/-! ## The queues -/

structure HostQueues where
  modid : BitVec 32
  cmdid : BitVec 32
  accessCnt : Int
  idle : List HostInfo
  overload : List HostInfo
deriving DecidableEq

/-- What an operation answers. -/
inductive BalancerAnswer where
  | updated
  | chosen (ret : BitVec 32) (host : Option HostEntry)
  | reported
  | committed (req : Option ReportStatusRequest)
deriving DecidableEq

namespace HostQueues

def create (modid cmdid : BitVec 32) (accessCnt : Int) : HostQueues :=
  ⟨modid, cmdid, accessCnt, [], []⟩

def addresses (q : HostQueues) : List HostEntry := (q.idle ++ q.overload).map HostInfo.entry

/-- The front, and the queue with the front at its end. -/
def turn : List HostInfo → Option HostEntry × List HostInfo
  | [] => (none, [])
  | hi :: rest => (some hi.entry, rest ++ [hi])

def turnIdle (q : HostQueues) : HostQueues := { q with idle := (turn q.idle).2 }

def turnOverload (q : HostQueues) : HostQueues := { q with overload := (turn q.overload).2 }

/-- Overload hosts have their turn after `probe_num` calls; where there are idle hosts too, one
    of them is what the caller gets. -/
def choice (cfg : LbConfig) (q : HostQueues) : HostQueues × BalancerAnswer :=
  if q.addresses = [] then (q, .chosen RET_NOEXIST none)
  else if q.idle = [] then
    if q.accessCnt ≥ cfg.probeNum then
      ({ q.turnOverload with accessCnt := 0 }, .chosen RET_SUCC (turn q.overload).1)
    else ({ q with accessCnt := q.accessCnt + 1 }, .chosen RET_OVERLOAD none)
  else if q.overload = [] then (q.turnIdle, .chosen RET_SUCC (turn q.idle).1)
  else
    let first :=
      if q.accessCnt ≥ cfg.probeNum then { q.turnOverload with accessCnt := 0 }
      else { q.turnIdle with accessCnt := q.accessCnt + 1 }
    (first.turnIdle, .chosen RET_SUCC (turn first.idle).1)

/-- What a report makes of the records, of which it is about one. -/
def counted (cfg : LbConfig) (h : HostEntry) (retcode : BitVec 32) (hi : HostInfo) : HostInfo :=
  if hi.entry = h then hi.afterReport cfg retcode else hi

/-- Each host is in the queue that its flag names, behind those that were there. -/
def report (cfg : LbConfig) (q : HostQueues) (h : HostEntry) (retcode : BitVec 32) : HostQueues :=
  let idle := q.idle.map (counted cfg h retcode)
  let overload := q.overload.map (counted cfg h retcode)
  { q with
    idle := idle.filter (! ·.overload) ++ overload.filter (! ·.overload)
    overload := overload.filter (·.overload) ++ idle.filter (·.overload) }

def update (cfg : LbConfig) (q : HostQueues) (rsp : List HostEntry) : HostQueues :=
  { q with
    idle := q.idle.filter (·.entry ∈ rsp) ++ ((rsp.filter (· ∉ q.addresses)).eraseDups.map
      fun h => HostInfo.create h.ip h.port cfg.initSuccCnt)
    overload := q.overload.filter (·.entry ∈ rsp) }

def result (overload : Bool) (hi : HostInfo) : HostCallResult :=
  ⟨hi.ip, hi.port, hi.rsucc, hi.rerr, overload⟩

def commit (cfg : LbConfig) (q : HostQueues) (ts : BitVec 32) : Option ReportStatusRequest :=
  if q.addresses = [] then none
  else some ⟨q.modid, q.cmdid, cfg.localIp,
    q.idle.map (result false) ++ q.overload.map (result true), ts⟩

def perform (cfg : LbConfig) (q : HostQueues) : BalancerOp → HostQueues × BalancerAnswer
  | .update rsp _ => (q.update cfg rsp, .updated)
  | .choice => q.choice cfg
  | .report ip port retcode => (q.report cfg ⟨ip, port⟩ retcode, .reported)
  | .commit ts => (q, .committed (q.commit cfg ts))

end HostQueues

/-! ## The code and its view -/

namespace LoadBalance

/-- The operations as `route_lb` calls them, with what they answer. -/
def perform (cfg : LbConfig) (lb : LoadBalance) :
    BalancerOp → Except Fault (LoadBalance × BalancerAnswer)
  | .update rsp _ => (lb.update cfg rsp).map fun lb => (lb, .updated)
  | .choice =>
    if lb.empty then Except.ok (lb, .chosen RET_NOEXIST none)
    else (lb.choiceOneHost cfg).map fun (ret, host, lb) => (lb, .chosen ret host)
  | .report ip port retcode => (lb.report cfg ip port retcode).map fun lb => (lb, .reported)
  | .commit ts => (lb.commit cfg ts).map fun req => (lb, .committed req)

/-- The records behind the pointers of a list. -/
def records (lb : LoadBalance) (l : List Ptr) : List HostInfo := l.filterMap lb.heap.cells

def queues (lb : LoadBalance) : HostQueues :=
  ⟨lb.modid, lb.cmdid, lb.accessCnt, lb.records lb.idleList, lb.records lb.overloadList⟩

/-- No operation meets a host that was deleted: an update finds all hosts of the map there,
    and a report the host it is about. -/
def MeetsNone (lb : LoadBalance) : BalancerOp → Prop
  | .update _ _ => ∀ key, lb.HostThere key
  | .report ip port _ => lb.HostThere (pack ip port)
  | _ => True

/-- The invariant, which survives that a host leaves. -/
structure Queued (lb : LoadBalance) : Prop where
  catalogued : Catalogued lb
  nodup : (lb.idleList ++ lb.overloadList).Nodup
  some_listed : lb.empty = false → lb.idleList ++ lb.overloadList ≠ []

section Records

variable {lb : LoadBalance}

theorem mem_records {l : List Ptr} {hi : HostInfo} :
    hi ∈ lb.records l ↔ ∃ p ∈ l, lb.heap.cells p = some hi := List.mem_filterMap

theorem records_append (l m : List Ptr) : lb.records (l ++ m) = lb.records l ++ lb.records m :=
  List.filterMap_append

theorem Catalogued.records_eq_nil (catalogued : Catalogued lb) {l : List Ptr}
    (hl : l ⊆ lb.idleList ++ lb.overloadList) : lb.records l = [] ↔ l = [] := by
  constructor
  · intro hnil
    by_contra hne
    obtain ⟨p, hp⟩ := List.exists_mem_of_ne_nil l hne
    obtain ⟨hi, hcell, -⟩ := (catalogued.listed p).mp (hl hp)
    have hmem := mem_records.mpr ⟨p, hp, hcell⟩
    rw [hnil] at hmem
    exact List.not_mem_nil hmem
  · rintro rfl
    rfl

theorem mem_addresses {h : HostEntry} : h ∈ lb.queues.addresses ↔ lb.Names h := by
  unfold HostQueues.addresses queues Names
  rw [← records_append, List.mem_map]
  constructor
  · rintro ⟨hi, hmem, rfl⟩
    obtain ⟨p, hp, hcell⟩ := mem_records.mp hmem
    exact ⟨p, hp, hi, hcell, rfl⟩
  · rintro ⟨p, hp, hi, hcell, rfl⟩
    exact ⟨hi, mem_records.mpr ⟨p, hp, hcell⟩, rfl⟩

theorem Catalogued.addresses_eq_nil (catalogued : Catalogued lb) :
    lb.queues.addresses = [] ↔ lb.idleList ++ lb.overloadList = [] := by
  unfold HostQueues.addresses queues
  rw [← records_append, List.map_eq_nil_iff]
  exact catalogued.records_eq_nil (List.Subset.refl _)

/-- The map has hosts exactly where the queues do. -/
theorem Queued.empty_iff (queued : Queued lb) :
    lb.empty = true ↔ lb.queues.addresses = [] := by
  rw [queued.catalogued.addresses_eq_nil]
  constructor
  · intro hempty
    by_contra hne
    obtain ⟨p, hp⟩ := List.exists_mem_of_ne_nil _ hne
    obtain ⟨hi, -, hlookup⟩ := (queued.catalogued.listed p).mp hp
    have hsome : lb.empty = false :=
      empty_eq_false_iff.mpr ⟨hi.key, AList.lookup_isSome.mp (by rw [hlookup]; rfl)⟩
    rw [hempty] at hsome
    cases hsome
  · intro hnone
    by_contra hsome
    exact queued.some_listed (Bool.eq_false_iff.mpr hsome) hnone

end Records

/-! ### `choice_one_host` -/

section Choice

variable {cfg : LbConfig} {lb lb' : LoadBalance}

theorem turn_records {l l' : List Ptr} {h : HostEntry}
    (hget : lb.getHostFromList l = Except.ok (h, l')) :
    HostQueues.turn (lb.records l) = (some h, lb.records l') := by
  cases l with
  | nil => cases hget
  | cons p rest =>
    simp only [getHostFromList, host] at hget
    rcases hcell : lb.heap.cells p with _ | hi
    · simp only [hcell] at hget
      cases hget
    · simp only [hcell] at hget
      cases hget
      simp [records, hcell, HostQueues.turn, HostInfo.entry]

theorem turnIdle_queues {l : List Ptr} {h : HostEntry}
    (hget : lb.getHostFromList lb.idleList = Except.ok (h, l)) :
    lb.queues.turnIdle = { lb with idleList := l }.queues ∧
      (HostQueues.turn lb.queues.idle).1 = some h := by
  have hturn : HostQueues.turn lb.queues.idle = (some h, lb.records l) := turn_records hget
  unfold HostQueues.turnIdle
  rw [hturn]
  exact ⟨rfl, rfl⟩

theorem turnOverload_queues {l : List Ptr} {h : HostEntry}
    (hget : lb.getHostFromList lb.overloadList = Except.ok (h, l)) :
    lb.queues.turnOverload = { lb with overloadList := l }.queues ∧
      (HostQueues.turn lb.queues.overload).1 = some h := by
  have hturn : HostQueues.turn lb.queues.overload = (some h, lb.records l) := turn_records hget
  unfold HostQueues.turnOverload
  rw [hturn]
  exact ⟨rfl, rfl⟩

/-- A choice turns the queues that the code turns, and answers with the same host. -/
theorem Queued.choice (queued : Queued lb) {ret : BitVec 32} {h : Option HostEntry}
    (hempty : lb.empty = false) (hchoice : lb.choiceOneHost cfg = Except.ok (ret, h, lb')) :
    lb.queues.choice cfg = (lb'.queues, .chosen ret h) := by
  have hsome : lb.queues.addresses ≠ [] := by
    intro hnone
    rw [queued.empty_iff.mpr hnone] at hempty
    cases hempty
  have hidle : lb.queues.idle = [] ↔ lb.idleList = [] :=
    queued.catalogued.records_eq_nil (List.subset_append_left _ _)
  have hover : lb.queues.overload = [] ↔ lb.overloadList = [] :=
    queued.catalogued.records_eq_nil (List.subset_append_right _ _)
  have hcnt : lb.queues.accessCnt = lb.accessCnt := rfl
  unfold HostQueues.choice
  simp only [if_neg hsome, hidle, hover, hcnt]
  unfold choiceOneHost at hchoice
  split at hchoice
  · rename_i hnoIdle
    rw [if_pos hnoIdle]
    split at hchoice
    · rename_i hprobe
      rw [if_pos hprobe]
      split at hchoice <;> cases hchoice
      rename_i hget
      obtain ⟨hturned, hfront⟩ := turnOverload_queues hget
      rw [hturned, hfront]
      rfl
    · rename_i hprobe
      rw [if_neg hprobe]
      cases hchoice
      rfl
  · rename_i hsomeIdle
    rw [if_neg hsomeIdle]
    split at hchoice
    · rename_i hnoOver
      rw [if_pos hnoOver]
      split at hchoice <;> cases hchoice
      rename_i hget
      obtain ⟨hturned, hfront⟩ := turnIdle_queues hget
      rw [hturned, hfront]
    · -- one of the queues is turned, and then the idle one
      rename_i hsomeOver
      rw [if_neg hsomeOver]
      simp only at hchoice
      split at hchoice
      · cases hchoice
      rename_i mid hmid
      have hfirst : (if lb.accessCnt ≥ cfg.probeNum then
          { lb.queues.turnOverload with accessCnt := 0 }
          else { lb.queues.turnIdle with accessCnt := lb.accessCnt + 1 }) = mid.queues := by
        split at hmid <;> rename_i hprobe
        · rw [if_pos hprobe]
          split at hmid <;> cases hmid
          rename_i hget
          rw [(turnOverload_queues hget).1]
          rfl
        · rw [if_neg hprobe]
          split at hmid <;> cases hmid
          rename_i hget
          rw [(turnIdle_queues hget).1]
          rfl
      rw [hfirst]
      split at hchoice <;> cases hchoice
      rename_i hget
      obtain ⟨hturned, hfront⟩ := turnIdle_queues hget
      rw [hturned, hfront]

theorem Queued.chosen (queued : Queued lb) {ret : BitVec 32} {h : Option HostEntry}
    (hchoice : lb.choiceOneHost cfg = Except.ok (ret, h, lb')) : Queued lb' := by
  have hcatalogued := queued.catalogued.choice hchoice
  obtain ⟨⟨accessCnt, idle, overload, hidle, hover, rfl⟩, -⟩ := choiceOneHost_cases hchoice
  have hperm := hidle.append hover
  refine ⟨hcatalogued, hperm.nodup_iff.mpr queued.nodup, ?_⟩
  intro hempty hnone
  rw [hnone] at hperm
  exact queued.some_listed hempty hperm.nil_eq.symm

end Choice

/-! ### `report` -/

/-- The host behind the pointer is overload. -/
def flagged (lb : LoadBalance) (p : Ptr) : Bool := (lb.heap.cells p).any (·.overload)

section Report

variable {cfg : LbConfig} {lb lb' : LoadBalance}

theorem records_flagged (lb : LoadBalance) (l : List Ptr) :
    (lb.records l).filter (·.overload) = lb.records (l.filter lb.flagged) := by
  induction l with
  | nil => rfl
  | cons p l ih =>
    unfold records at ih ⊢
    rcases hcell : lb.heap.cells p with _ | hi
    · have hflag : lb.flagged p = false := by simp [flagged, hcell]
      rw [List.filterMap_cons_none hcell, List.filter_cons_of_neg (by simp [hflag])]
      exact ih
    · have hflag : lb.flagged p = hi.overload := by simp [flagged, hcell]
      rw [List.filterMap_cons_some hcell]
      by_cases hover : hi.overload = true
      · rw [List.filter_cons_of_pos hover, List.filter_cons_of_pos (by rw [hflag]; exact hover),
          List.filterMap_cons_some hcell, ih]
      · rw [List.filter_cons_of_neg hover, List.filter_cons_of_neg (by rw [hflag]; exact hover), ih]

theorem records_unflagged (lb : LoadBalance) (l : List Ptr) :
    (lb.records l).filter (! ·.overload) = lb.records (l.filter (! lb.flagged ·)) := by
  induction l with
  | nil => rfl
  | cons p l ih =>
    unfold records at ih ⊢
    rcases hcell : lb.heap.cells p with _ | hi
    · have hflag : lb.flagged p = false := by simp [flagged, hcell]
      rw [List.filterMap_cons_none hcell, List.filter_cons_of_pos (by simp [hflag]),
        List.filterMap_cons_none hcell]
      exact ih
    · have hflag : lb.flagged p = hi.overload := by simp [flagged, hcell]
      rw [List.filterMap_cons_some hcell]
      by_cases hover : hi.overload = true
      · rw [List.filter_cons_of_neg (by simp [hover]),
          List.filter_cons_of_neg (by simp [hflag, hover]), ih]
      · rw [List.filter_cons_of_pos (by simp [hover]),
          List.filter_cons_of_pos (by simp [hflag, hover]), List.filterMap_cons_some hcell, ih]

theorem records_map {f : HostInfo → HostInfo} {l : List Ptr}
    (hcells : ∀ p ∈ l, lb'.heap.cells p = (lb.heap.cells p).map f) :
    lb'.records l = (lb.records l).map f := by
  unfold records
  rw [List.map_filterMap]
  exact List.filterMap_congr hcells

theorem Catalogued.flagged_idle (catalogued : Catalogued lb) {p : Ptr} (hp : p ∈ lb.idleList) :
    lb.flagged p = false := by
  obtain ⟨hi, hcell, hflag⟩ := catalogued.alive.idle p hp
  simp [flagged, hcell, hflag]

theorem Catalogued.flagged_overload (catalogued : Catalogued lb) {p : Ptr}
    (hp : p ∈ lb.overloadList) : lb.flagged p = true := by
  obtain ⟨hi, hcell, hflag⟩ := catalogued.alive.overload p hp
  simp [flagged, hcell, hflag]

/-- The lists of `lb'` are those of `lb`, sorted by the flags in `lb'`. -/
structure Sorted (lb lb' : LoadBalance) : Prop where
  idle : lb'.idleList = lb.idleList.filter (! lb'.flagged ·) ++
    lb.overloadList.filter (! lb'.flagged ·)
  overload : lb'.overloadList = lb.overloadList.filter lb'.flagged ++
    lb.idleList.filter lb'.flagged

/-- Lists that stay as they are are sorted, if the flags do. -/
theorem sorted_same (hidle : lb'.idleList = lb.idleList)
    (hover : lb'.overloadList = lb.overloadList)
    (catalogued : Catalogued lb') : Sorted lb lb' := by
  have hfalse : ∀ p ∈ lb.idleList, lb'.flagged p = false :=
    fun p hp => catalogued.flagged_idle (hidle ▸ hp)
  have htrue : ∀ p ∈ lb.overloadList, lb'.flagged p = true :=
    fun p hp => catalogued.flagged_overload (hover ▸ hp)
  constructor
  · rw [hidle, List.filter_eq_self.mpr (by simpa using hfalse),
      List.filter_eq_nil_iff.mpr (by simpa using htrue), List.append_nil]
  · rw [hover, List.filter_eq_self.mpr htrue,
      List.filter_eq_nil_iff.mpr (by simpa using hfalse), List.append_nil]

theorem Sorted.perm (sorted : Sorted lb lb') :
    (lb'.idleList ++ lb'.overloadList).Perm (lb.idleList ++ lb.overloadList) := by
  rw [sorted.idle, sorted.overload, ← List.filter_append]
  have hover : (lb.overloadList.filter lb'.flagged ++ lb.idleList.filter lb'.flagged).Perm
      ((lb.idleList ++ lb.overloadList).filter lb'.flagged) := by
    rw [List.filter_append]
    exact List.perm_append_comm
  exact (hover.append_left _).trans
    (List.perm_append_comm.trans (List.filter_append_perm lb'.flagged _))

/-- One host leaves its list for the other: the lists are those that `f` tells apart. -/
theorem moved {l m : List Ptr} {p : Ptr} {f : Ptr → Bool} (hnodup : l.Nodup) (hp : p ∈ l)
    (hl : ∀ q ∈ l, f q = true ↔ q = p) (hm : ∀ q ∈ m, f q = true) :
    l.filter (· ≠ p) = l.filter (! f ·) ++ m.filter (! f ·) ∧
      m ++ [p] = m.filter f ++ l.filter f := by
  have hnone : m.filter (! f ·) = [] := List.filter_eq_nil_iff.mpr (by simpa using hm)
  have hone : l.filter f = [p] := by
    have hsame : l.filter f = l.filter (· == p) := by
      apply List.filter_congr
      intro q hq
      rw [Bool.eq_iff_iff, hl q hq, beq_iff_eq]
    rw [hsame, List.filter_beq, List.count_eq_one_of_mem hnodup hp]
    rfl
  rw [hnone, hone, List.filter_eq_self.mpr hm, List.append_nil]
  refine ⟨List.filter_congr ?_, rfl⟩
  intro q hq
  by_cases hqp : q = p
  · simp [hqp, (hl p hp).mpr rfl]
  · have hf : f q = false := Bool.eq_false_iff.mpr fun h => hqp ((hl q hq).mp h)
    simp [hqp, hf]

/-- **`report` sorts the hosts by their flags**, of which at most one has changed. -/
theorem Queued.refiled_sorted (queued : Queued lb) {p : Ptr} {old hi : HostInfo}
    (hp : p ∈ lb.idleList ++ lb.overloadList) (hcell : lb.heap.cells p = some old)
    (refiled : Refiled lb p old hi lb'.heap lb'.idleList lb'.overloadList)
    (catalogued : Catalogued lb') : Sorted lb lb' := by
  obtain ⟨hidleNodup, hoverNodup, -⟩ := List.nodup_append'.mp queued.nodup
  have hself : lb'.flagged p = hi.overload := by simp [flagged, refiled.self]
  have hother : ∀ q ≠ p, lb'.flagged q = lb.flagged q := by
    intro q hq
    simp [flagged, refiled.other q hq]
  rcases refiled.lists with ⟨-, hidle, hover⟩ | ⟨hold, hnew, hidle, hover⟩ |
    ⟨hold, hnew, hidle, hover⟩
  · exact sorted_same hidle hover catalogued
  · -- an idle host is overload now
    have hmem : p ∈ lb.idleList := by
      rcases List.mem_append.mp hp with hmem | hmem
      · exact hmem
      · exact Bool.noConfusion (hold.symm.trans
          (queued.catalogued.alive.overload_flag hmem hcell))
    have hmoved := moved (m := lb.overloadList) (f := lb'.flagged) hidleNodup hmem ?_ ?_
    · exact ⟨hidle.trans hmoved.1, hover.trans hmoved.2⟩
    · intro q hq
      by_cases hqp : q = p
      · rw [hqp, hself]
        exact iff_of_true hnew rfl
      · rw [hother q hqp, queued.catalogued.flagged_idle hq]
        exact iff_of_false Bool.false_ne_true hqp
    · intro q hq
      by_cases hqp : q = p
      · rw [hqp, hself, hnew]
      · rw [hother q hqp, queued.catalogued.flagged_overload hq]
  · -- an overload host is idle now
    have hmem : p ∈ lb.overloadList := by
      rcases List.mem_append.mp hp with hmem | hmem
      · exact Bool.noConfusion (hold.symm.trans (queued.catalogued.alive.idle_flag hmem hcell))
      · exact hmem
    have hmoved := moved (m := lb.idleList) (f := (! lb'.flagged ·)) hoverNodup hmem ?_ ?_
    · simp only [Bool.not_not] at hmoved
      exact ⟨hidle.trans hmoved.2, hover.trans hmoved.1⟩
    · intro q hq
      by_cases hqp : q = p
      · rw [hqp, hself, hnew]
        exact iff_of_true rfl rfl
      · rw [hother q hqp, queued.catalogued.flagged_overload hq]
        exact iff_of_false Bool.false_ne_true hqp
    · intro q hq
      by_cases hqp : q = p
      · rw [hqp, hself, hnew]
        rfl
      · rw [hother q hqp, queued.catalogued.flagged_idle hq]
        rfl

/-- Sorted lists whose records are counted are the queues after the report. -/
theorem queues_report {h : HostEntry} {retcode : BitVec 32}
    (hframe : lb' = { lb with
      heap := lb'.heap, idleList := lb'.idleList, overloadList := lb'.overloadList })
    (hcells : ∀ p ∈ lb.idleList ++ lb.overloadList,
      lb'.heap.cells p = (lb.heap.cells p).map (HostQueues.counted cfg h retcode))
    (sorted : Sorted lb lb') : lb.queues.report cfg h retcode = lb'.queues := by
  have hidle : (lb.records lb.idleList).map (HostQueues.counted cfg h retcode) =
      lb'.records lb.idleList :=
    (records_map fun p hp => hcells p (List.mem_append_left _ hp)).symm
  have hover : (lb.records lb.overloadList).map (HostQueues.counted cfg h retcode) =
      lb'.records lb.overloadList :=
    (records_map fun p hp => hcells p (List.mem_append_right _ hp)).symm
  unfold HostQueues.report
  simp only [queues, hidle, hover, records_flagged, records_unflagged, ← records_append,
    ← sorted.idle, ← sorted.overload]
  rw [hframe]

/-- A listed host has the address of a report exactly if the map leads to it. -/
theorem Catalogued.cells_counted (catalogued : Catalogued lb) {h : HostEntry} {p : Ptr}
    (hp : p ∈ lb.idleList ++ lb.overloadList) (hother : lb.hostMap.lookup h.key ≠ some p)
    (retcode : BitVec 32) :
    (lb.heap.cells p).map (HostQueues.counted cfg h retcode) = lb.heap.cells p := by
  obtain ⟨hi, hcell, hlookup⟩ := (catalogued.listed p).mp hp
  have hne : hi.entry ≠ h := by
    rintro rfl
    exact hother hlookup
  rw [hcell, Option.map_some, HostQueues.counted, if_neg hne]

theorem Queued.report (queued : Queued lb) {ip port retcode : BitVec 32}
    (hreport : lb.report cfg ip port retcode = Except.ok lb') :
    lb.queues.report cfg ⟨ip, port⟩ retcode = lb'.queues ∧ Queued lb' := by
  have hafter := (queued.catalogued.report hreport).1
  rcases hlookup : lb.hostMap.lookup (pack ip port) with _ | p
  · obtain rfl := Except.ok.inj ((report_absent hlookup).symm.trans hreport)
    refine ⟨queues_report rfl ?_ (sorted_same rfl rfl hafter), queued⟩
    intro p hp
    refine (queued.catalogued.cells_counted hp ?_ retcode).symm
    change lb.hostMap.lookup (pack ip port) ≠ some p
    rw [hlookup]
    simp
  · obtain ⟨old, hcell⟩ := hostThere_of_report hreport p hlookup
    obtain ⟨heap, idle, overload, hcases, refiled⟩ := report_cases cfg hlookup hcell retcode
    obtain rfl := Except.ok.inj (hcases.symm.trans hreport)
    have hkey : old.key = pack ip port := queued.catalogued.alive.filed _ p old hlookup hcell
    have hp : p ∈ lb.idleList ++ lb.overloadList :=
      (queued.catalogued.listed p).mpr ⟨old, hcell, by rw [hkey]; exact hlookup⟩
    have hsorted := queued.refiled_sorted hp hcell refiled hafter
    refine ⟨queues_report rfl ?_ hsorted, hafter, ?_, ?_⟩
    · intro q hq
      by_cases hqp : q = p
      · have hentry : old.entry = ⟨ip, port⟩ := HostEntry.key_inj.mp hkey
        rw [hqp, refiled.self, hcell, Option.map_some, HostQueues.counted, if_pos hentry]
      · rw [refiled.other q hqp]
        refine (queued.catalogued.cells_counted hq ?_ retcode).symm
        change lb.hostMap.lookup (pack ip port) ≠ some q
        rw [hlookup]
        simpa using fun heq : p = q => hqp heq.symm
    · exact hsorted.perm.nodup_iff.mpr queued.nodup
    · intro hempty hnone
      have hnil := hsorted.perm
      rw [hnone] at hnil
      exact queued.some_listed hempty hnil.nil_eq.symm

end Report

/-! ### `update` -/

section Update

variable {cfg : LbConfig} {lb lb' : LoadBalance} {rsp : List HostEntry}

/-- Before a host leaves, the representation is intact. -/
theorem Queued.repInv (queued : Queued lb) (hthere : ∀ key, lb.HostThere key) : RepInv lb := by
  refine repInv_of_alive queued.catalogued.alive queued.nodup ?_ hthere
  intro p
  rw [queued.catalogued.listed p]
  constructor
  · rintro ⟨hi, -, hlookup⟩
    exact ⟨hi.key, hlookup⟩
  · rintro ⟨key, hlookup⟩
    obtain ⟨hi, hcell⟩ := hthere key p hlookup
    have hkey : hi.key = key := queued.catalogued.alive.filed key p hi hlookup hcell
    exact ⟨hi, hcell, by rw [hkey]; exact hlookup⟩

/-- The records of the hosts that stay. -/
theorem RepInv.records_stay (hinv : RepInv lb)
    (hcells : ∀ p, lb.Stays rsp p → lb'.heap.cells p = lb.heap.cells p) {l : List Ptr}
    (hl : l ⊆ lb.idleList ++ lb.overloadList) :
    lb'.records (l.filter (lb.Stays rsp)) = (lb.records l).filter (·.entry ∈ rsp) := by
  induction l with
  | nil => rfl
  | cons p l ih =>
    have ih := ih fun q hq => hl (List.mem_cons_of_mem _ hq)
    obtain ⟨key, hlookup⟩ := (hinv.listed p).mp (hl List.mem_cons_self)
    obtain ⟨hi, hcell, hkey⟩ := hinv.filed key p hlookup
    have hstays : lb.Stays rsp p ↔ hi.entry ∈ rsp := by
      rw [hinv.stays_iff hlookup, ← hkey, List.mem_map]
      constructor
      · rintro ⟨h, hh, hsame⟩
        rwa [← HostEntry.key_inj.mp (show h.key = hi.entry.key from hsame)]
      · exact fun hmem => ⟨hi.entry, hmem, rfl⟩
    unfold records at ih ⊢
    rw [List.filterMap_cons_some hcell]
    by_cases hmem : hi.entry ∈ rsp
    · have hp := hstays.mpr hmem
      rw [List.filter_cons_of_pos (by simpa using hp),
        List.filter_cons_of_pos (by simpa using hmem),
        List.filterMap_cons_some ((hcells p hp).trans hcell), ih]
    · have hp : ¬ lb.Stays rsp p := fun h => hmem (hstays.mp h)
      rw [List.filter_cons_of_neg (by simpa using hp),
        List.filter_cons_of_neg (by simpa using hmem),
        ih]

theorem records_of_map {l : List Ptr} {his : List HostInfo}
    (hcells : l.map lb.heap.cells = his.map some) : lb.records l = his := by
  have hmapped : lb.records l = (l.map lb.heap.cells).filterMap id := by
    rw [List.filterMap_map]
    rfl
  rw [hmapped, hcells, List.filterMap_map]
  exact List.filterMap_some

/-- `update` does not touch what is not about hosts. -/
theorem update_other (hupdate : lb.update cfg rsp = Except.ok lb') :
    lb'.modid = lb.modid ∧ lb'.cmdid = lb.cmdid ∧ lb'.accessCnt = lb.accessCnt := by
  rw [update_eq cfg lb (ne_nil_of_update hupdate)] at hupdate
  refine foldlM_invariant (fun mid => mid.modid = lb.modid ∧ mid.cmdid = lb.cmdid ∧
    mid.accessCnt = lb.accessCnt) ?_ hupdate ?_
  · intro mid key mid' hdelete hmid
    obtain ⟨p, hi, -, -, rfl⟩ := deleteHost_cases hdelete
    exact hmid
  · refine List.foldlRecOn (motive := fun mid => mid.modid = lb.modid ∧ mid.cmdid = lb.cmdid ∧
      mid.accessCnt = lb.accessCnt) rsp (LoadBalance.insertHost cfg) ⟨rfl, rfl, rfl⟩ ?_
    intro mid hmid h _
    unfold LoadBalance.insertHost
    split
    · exact hmid
    · exact hmid

theorem nodup_deleteHost {key : BitVec 64} (hdelete : lb.deleteHost key = Except.ok lb')
    (hnodup : (lb.idleList ++ lb.overloadList).Nodup) :
    (lb'.idleList ++ lb'.overloadList).Nodup := by
  obtain ⟨p, hi, -, -, rfl⟩ := deleteHost_cases hdelete
  refine hnodup.sublist ?_
  simp only
  split
  · exact (List.Sublist.refl _).append List.filter_sublist
  · exact List.filter_sublist.append (List.Sublist.refl _)

/-- **An answer that meets no deleted host does to the queues what it says**, whoever leaves. -/
theorem Queued.update (queued : Queued lb) (hthere : ∀ key, lb.HostThere key)
    (hupdate : lb.update cfg rsp = Except.ok lb') :
    lb.queues.update cfg rsp = lb'.queues ∧ Queued lb' := by
  have hinv := queued.repInv hthere
  have hne := ne_nil_of_update hupdate
  obtain ⟨found, hfound, lists, -⟩ := hinv.update_lists cfg hne
  obtain rfl := Except.ok.inj (hfound.symm.trans hupdate)
  constructor
  · obtain ⟨fresh, hidle, hfresh⟩ := lists.idle
    have hnew : (rsp.filter (· ∉ lb.queues.addresses)).eraseDups = lb.newHosts rsp := by
      unfold newHosts
      congr 1
      apply List.filter_congr
      intro h _
      rw [decide_eq_decide, not_iff_not, mem_addresses, queued.catalogued.names_iff]
      constructor
      · rintro ⟨p, hi, hlookup, -⟩
        exact AList.lookup_isSome.mp (by rw [hlookup]; rfl)
      · intro hmem
        obtain ⟨p, hlookup⟩ := Option.isSome_iff_exists.mp (AList.lookup_isSome.mpr hmem)
        obtain ⟨hi, hcell⟩ := hthere h.key p hlookup
        exact ⟨p, hi, hlookup, hcell⟩
    have hrecords : found.records fresh =
        (lb.newHosts rsp).map fun h => HostInfo.create h.ip h.port cfg.initSuccCnt := by
      apply records_of_map
      rw [hfresh, List.map_map]
      rfl
    obtain ⟨hmodid, hcmdid, hcnt⟩ := update_other hupdate
    unfold HostQueues.update
    rw [hnew]
    unfold queues
    rw [hidle, lists.overload, records_append, hrecords,
      hinv.records_stay lists.survivors (List.subset_append_left _ _),
      hinv.records_stay lists.survivors (List.subset_append_right _ _), hmodid, hcmdid, hcnt]
  · refine ⟨(queued.catalogued.update hupdate).1, ?_, ?_⟩
    · rw [update_eq cfg lb hne] at hupdate
      exact foldlM_invariant (fun mid => (mid.idleList ++ mid.overloadList).Nodup)
        (fun _ _ _ hdelete hnodup => nodup_deleteHost hdelete hnodup) hupdate
        (hinv.insertHosts cfg rsp).nodup
    · intro _ hnone
      obtain ⟨h, hmem⟩ := List.exists_mem_of_ne_nil rsp hne
      obtain ⟨p, hp, -⟩ := (lists.listed h).mpr hmem
      rw [hnone] at hp
      exact List.not_mem_nil hp

/-- **An answer that meets a deleted host goes wrong**: it follows the pointer, or leaves out a
    host that has come back. -/
theorem Queued.hostThere_of_update (queued : Queued lb)
    (hupdate : lb.update cfg rsp = Except.ok lb')
    (hqueues : lb.queues.update cfg rsp = lb'.queues) (key : BitVec 64) : lb.HostThere key := by
  have hne := ne_nil_of_update hupdate
  by_cases hkey : key ∈ rsp.map HostEntry.key
  · intro p hlookup
    obtain ⟨h, hmem, rfl⟩ := List.mem_map.mp hkey
    -- the queues have the host, so the map leads to it
    have hqueued : h ∈ (lb.queues.update cfg rsp).addresses := by
      by_cases hold : h ∈ lb.queues.addresses
      · obtain ⟨hi, hhi, rfl⟩ := List.mem_map.mp hold
        refine List.mem_map_of_mem ?_
        rcases List.mem_append.mp hhi with hidle | hover
        · exact List.mem_append_left _ (List.mem_append_left _
            (List.mem_filter.mpr ⟨hidle, decide_eq_true hmem⟩))
        · exact List.mem_append_right _ (List.mem_filter.mpr ⟨hover, decide_eq_true hmem⟩)
      · have hfresh : h ∈ (rsp.filter (· ∉ lb.queues.addresses)).eraseDups :=
          List.mem_eraseDups.mpr (List.mem_filter.mpr ⟨hmem, decide_eq_true hold⟩)
        refine List.mem_map.mpr ⟨HostInfo.create h.ip h.port cfg.initSuccCnt, ?_, rfl⟩
        exact List.mem_append_left _ (List.mem_append_right _ (List.mem_map_of_mem hfresh))
    rw [hqueues, mem_addresses, (queued.catalogued.update hupdate).1.names_iff] at hqueued
    obtain ⟨q, hi, hlookup', hcell'⟩ := hqueued
    rw [update_eq cfg lb hne] at hupdate
    obtain ⟨hmap, hdangling, -⟩ := deleteHosts_map hupdate
    obtain ⟨-, -, hbelow, hkept⟩ := insertHosts_fresh cfg lb rsp
    rw [hmap, hkept h.key p hlookup] at hlookup'
    cases hlookup'
    rcases hcell : lb.heap.cells p with _ | old
    · have hgone := hdangling p
        ((hbelow p (queued.catalogued.alive.known h.key p hlookup)).trans hcell)
      rw [hgone] at hcell'
      cases hcell'
    · exact ⟨old, rfl⟩
  · exact (queued.catalogued.alive.update_ok_iff cfg hne).mp ⟨lb', hupdate⟩ key hkey

end Update

/-! ### `commit` -/

section Commit

variable {cfg : LbConfig} {lb : LoadBalance}

theorem callResults_cons (overload : Bool) (p : Ptr) (l : List Ptr) :
    lb.callResults overload (p :: l) = (lb.host p).bind fun hi =>
      (lb.callResults overload l).map (HostQueues.result overload hi :: ·) := by
  unfold callResults
  rw [List.mapM_cons]
  rcases lb.host p with fault | hi
  · rfl
  · rfl

theorem callResults_records {overload : Bool} {l : List Ptr} {results : List HostCallResult}
    (hresults : lb.callResults overload l = Except.ok results) :
    results = (lb.records l).map (HostQueues.result overload) := by
  induction l generalizing results with
  | nil =>
    cases hresults
    rfl
  | cons p l ih =>
    rw [callResults_cons] at hresults
    unfold host at hresults
    rcases hcell : lb.heap.cells p with _ | hi
    · simp only [hcell] at hresults
      cases hresults
    · simp only [hcell, Except.bind] at hresults
      obtain ⟨rest, hrest, rfl⟩ := map_eq_ok.mp hresults
      rw [ih hrest]
      unfold records
      rw [List.filterMap_cons_some hcell]
      rfl

theorem Queued.commit (queued : Queued lb) {ts : BitVec 32} {req : Option ReportStatusRequest}
    (hcommit : lb.commit cfg ts = Except.ok req) : lb.queues.commit cfg ts = req := by
  unfold LoadBalance.commit at hcommit
  unfold HostQueues.commit
  split at hcommit
  · rename_i hempty
    rw [if_pos (queued.empty_iff.mp hempty)]
    cases hcommit
    rfl
  · rename_i hempty
    rw [if_neg fun hnone => hempty (queued.empty_iff.mpr hnone)]
    rcases hidle : lb.callResults false lb.idleList with fault | idle
    · rw [hidle] at hcommit
      cases hcommit
    rcases hover : lb.callResults true lb.overloadList with fault | overload
    · rw [hidle, hover] at hcommit
      cases hcommit
    · rw [hidle, hover] at hcommit
      cases hcommit
      rw [callResults_records hidle, callResults_records hover]
      rfl

end Commit

/-! ## Every run -/

theorem queued_create (modid cmdid : BitVec 32) (accessCnt : Int) :
    Queued (create modid cmdid accessCnt) where
  catalogued := catalogued_create modid cmdid accessCnt
  nodup := List.nodup_nil
  some_listed := nofun

section Runs

variable {cfg : LbConfig} {lb : LoadBalance}

/-- An operation that meets no deleted host ends, and does as the queues do. -/
theorem Queued.perform (cfg : LbConfig) (queued : Queued lb) (op : BalancerOp)
    (hmeets : lb.MeetsNone op) : ∃ lb' answer, lb.perform cfg op = Except.ok (lb', answer) ∧
      lb.queues.perform cfg op = (lb'.queues, answer) ∧ Queued lb' := by
  cases op with
  | update rsp nonempty =>
    obtain ⟨lb', hupdate, -⟩ := (queued.repInv hmeets).update_lists cfg nonempty
    obtain ⟨hqueues, queued'⟩ := queued.update hmeets hupdate
    exact ⟨lb', .updated, by simp only [LoadBalance.perform, hupdate]; rfl,
      by simp only [HostQueues.perform, hqueues], queued'⟩
  | choice =>
    rcases hempty : lb.empty with _ | _
    · have hcan : lb.CanChoose cfg := Or.inl (queued.some_listed hempty)
      obtain ⟨⟨ret, h, lb'⟩, hchoice⟩ :=
        (choiceOneHost_ok_iff fun _ hp => queued.catalogued.alive.live hp).mpr hcan
      exact ⟨lb', .chosen ret h, by simp only [LoadBalance.perform, hempty, hchoice]; rfl,
        queued.choice hempty hchoice, queued.chosen hchoice⟩
    · refine ⟨lb, .chosen RET_NOEXIST none, by simp only [LoadBalance.perform, hempty]; rfl, ?_,
        queued⟩
      simp only [HostQueues.perform, HostQueues.choice, if_pos (queued.empty_iff.mp hempty)]
  | report ip port retcode =>
    obtain ⟨lb', hreport, -⟩ := queued.catalogued.alive.report cfg hmeets retcode
    obtain ⟨hqueues, queued'⟩ := queued.report hreport
    exact ⟨lb', .reported, by simp only [LoadBalance.perform, hreport]; rfl,
      by simp only [HostQueues.perform, hqueues], queued'⟩
  | commit ts =>
    obtain ⟨req, hcommit⟩ := commit_ok cfg (fun _ hp => queued.catalogued.alive.live hp) ts
    exact ⟨lb, .committed req, by simp only [LoadBalance.perform, hcommit]; rfl,
      by simp only [HostQueues.perform, queued.commit hcommit], queued⟩

theorem Queued.meetsNone (queued : Queued lb) {op : BalancerOp} {lb' : LoadBalance}
    {answer : BalancerAnswer} (hperform : lb.perform cfg op = Except.ok (lb', answer))
    (hqueues : lb.queues.perform cfg op = (lb'.queues, answer)) : lb.MeetsNone op := by
  cases op with
  | update rsp nonempty =>
    obtain ⟨found, hupdate, heq⟩ := map_eq_ok.mp hperform
    cases heq
    exact queued.hostThere_of_update hupdate (congrArg Prod.fst hqueues)
  | choice => trivial
  | report ip port retcode =>
    obtain ⟨found, hreport, -⟩ := map_eq_ok.mp hperform
    exact hostThere_of_report hreport
  | commit ts => trivial

/-- **The code is the two queues exactly as long as it meets no deleted host.** From a new
    `load_balance`, over every sequence of calls: each ends, answers as the queues do and leaves
    what the queues are then, if and only if no update finds a host of the map deleted and no
    report is about one. -/
theorem follows_queues_iff (cfg : LbConfig) (modid cmdid : BitVec 32) (accessCnt : Int)
    (ops : List BalancerOp) :
    Follows (perform cfg) (HostQueues.perform cfg) queues (create modid cmdid accessCnt) ops ↔
      Meets (fun lb op => (lb.perform cfg op).map Prod.fst) MeetsNone
        (create modid cmdid accessCnt) ops := by
  apply follows_iff_meets Queued
  · exact fun lb op queued hmeets => queued.perform cfg op hmeets
  · exact fun lb op lb' answer queued hperform hqueues => queued.meetsNone hperform hqueues
  · exact queued_create modid cmdid accessCnt

end Runs

end LoadBalance

end LarsSystem.Agent
