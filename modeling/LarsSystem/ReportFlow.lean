import LarsSystem.HostQueues
import LarsSystem.ReportStore
import Mathlib.Data.Multiset.MapFold
import Mathlib.Data.Multiset.AddSub

/-!
# From the counters of an agent to the table of the reporter

`report_host` commits: the counters of all hosts of a module, as a report in
`report_queue`. The thread of the reporter's client takes the queue, packs report by
report into its send buffer, which can refuse one, and writes to a connection, which
can end at any time and is set up again. What was under way then may still arrive,
at any later time, or not. The reporter gives what arrives to its store threads.

On this way reports are lost and overtaken, and rows of them are lost if a statement
fails. None is doubled, and none is made up but by an agent that has lost the bounds of
its messages: whose connection ended in the middle of one, so that the rest opened the
next connection, or whose send buffer refused a body behind others and then dropped
their first bytes for the head. So each row of `ServerCallStatus` has the counters of
a host as an agent found them when it committed, or came from such an agent.
-/

namespace LarsSystem.Reporter

open LarsSystem.Agent
open LarsSystem.LastWrite
open LarsSystem.MachineWord
open LarsSystem.Transition

/-! ## The client of an agent -/

/-- A report with the number of its commit, which no step of the code reads. -/
abbrev Report := Nat × ReportStatusRequest

/-- What was committed, and the map as it was. -/
structure Commit where
  map : Agent.RouteMap
  req : ReportStatusRequest

/-- A connection with what is under way: reports, and where it is `garbled` bytes behind them
    that are not those of a message. -/
structure Flight where
  reports : List Report
  garbled : Bool

/-- One more message is written. -/
def Flight.append (flight : Flight) (spoiled : Bool) (report : Report) : Flight :=
  if flight.garbled || spoiled then { flight with garbled := true }
  else { flight with reports := flight.reports ++ [report] }

/-- How `send_message` ends: where the body finds no room the head is in the buffer already. -/
inductive SendResult where
  | accepted
  | headRefused
  | bodyRefused
deriving DecidableEq

/-- The maps of an agent and its client of the reporter. `older` is under way on connections that
    have ended; `commits` and `torn` are history. -/
structure ReportClient where
  routeLbs : Fin 3 → Agent.RouteMap
  commits : List Commit
  reportQueue : List Report
  /-- The queue that `new_report_request` took, as far as it has not sent it. -/
  msgs : List Report
  obuf : List Report
  /-- Some bytes of the first message of the send buffer are written. -/
  cut : Bool
  /-- The send buffer has lost the beginning of a message, and ends with a head. -/
  spoiled : Bool
  link : Option Flight
  older : Multiset Report
  olderGarbled : Bool
  /-- A connection has ended in the middle of a message, or the send buffer was spoiled. -/
  torn : Bool

inductive ClientStep where
  | getHost (i : Fin 3) (seq modid cmdid : BitVec 32) (accessCnt : Int)
  | updateHost (i : Fin 3) (modid cmdid : BitVec 32) (rsp : GetRouteResponse)
  | reportHost (i : Fin 3) (modid cmdid ip port retcode ts : BitVec 32)
  | recv
  | sendMessage (result : SendResult)
  | beginWrite
  | write
  | drop
  | lose (report : Report)
  | connect

namespace ReportClient

def create : ReportClient :=
  { routeLbs := fun _ => Agent.RouteMap.empty
    commits := []
    reportQueue := []
    msgs := []
    obuf := []
    cut := false
    spoiled := false
    link := none
    older := 0
    olderGarbled := false
    torn := false }

def setRoutes (c : ReportClient) (i : Fin 3) (map : Agent.RouteMap) : ReportClient :=
  { c with routeLbs := Function.update c.routeLbs i map }

/-- `report_queue->send(req)`, if `commit` comes to it. -/
def commit (c : ReportClient) (map : Agent.RouteMap) : Option ReportStatusRequest → ReportClient
  | none => c
  | some req =>
    { c with
      commits := c.commits ++ [⟨map, req⟩]
      reportQueue := c.reportQueue ++ [(c.commits.length, req)] }

/-- `send_message`; for a refused body it takes the size of a head from the front of the send
    buffer, whatever is there. -/
def sendMessage (c : ReportClient) (report : Report) : SendResult → ReportClient
  | .accepted => { c with obuf := c.obuf ++ [report] }
  | .headRefused => c
  | .bodyRefused =>
    if c.obuf = [] ∧ c.spoiled = false then c else { c with spoiled := true, torn := true }

/-- One step; none where it cannot be taken, where the process dies of it, or where a host is used
    that was deleted. -/
def next (cfg : LbConfig) (c : ReportClient) : ClientStep → Option ReportClient
  | .getHost i seq modid cmdid accessCnt =>
    match (c.routeLbs i).getHost cfg modid cmdid ⟨seq, modid, cmdid, 0, none⟩ accessCnt 0 with
    | Except.error _ => none
    | Except.ok result => some (c.setRoutes i result.map)
  | .updateHost i modid cmdid rsp =>
    match (c.routeLbs i).updateHost cfg modid cmdid rsp with
    | Except.error _ => none
    | Except.ok map => some (c.setRoutes i map)
  | .reportHost i modid cmdid ip port retcode ts =>
    match (c.routeLbs i).reportHost cfg modid cmdid ip port retcode ts with
    | Except.error _ => none
    | Except.ok (map, req) => some ((c.setRoutes i map).commit map req)
  | .recv =>
    if c.msgs = [] then some { c with msgs := c.reportQueue, reportQueue := [] } else none
  | .sendMessage result =>
    match c.msgs with
    | [] => none
    | report :: rest => some ({ c with msgs := rest }.sendMessage report result)
  | .beginWrite =>
    match c.link with
    | none => none
    | some flight =>
      if c.obuf = [] ∧ c.spoiled = false then none
      else some { c with
        cut := true
        link := some { flight with garbled := flight.garbled || c.spoiled } }
  | .write =>
    match c.link, c.obuf with
    | none, _ => none
    | some flight, report :: rest =>
      some { c with obuf := rest, cut := false, link := some (flight.append c.spoiled report) }
    | some flight, [] =>
      -- the head that was left at the end of a spoiled buffer
      if c.spoiled then
        some { c with
          cut := false, spoiled := false, link := some { flight with garbled := true } }
      else none
  | .drop =>
    match c.link with
    | none => none
    | some flight =>
      some { c with
        link := none
        older := c.older + flight.reports
        olderGarbled := c.olderGarbled || flight.garbled
        torn := c.torn || c.cut }
  | .lose report =>
    if report ∈ c.older then some { c with older := c.older.erase report } else none
  | .connect =>
    match c.link with
    | some _ => none
    | none => some { c with link := some ⟨[], c.cut⟩ }

/-- The reporter may find in what it reads what the agent has not written. -/
def garbles (c : ReportClient) : Bool :=
  c.olderGarbled || match c.link with
    | some ⟨[], garbled⟩ => garbled
    | _ => false

end ReportClient

/-! ## Agents and the reporter -/

/-- What `get_report_status` was called with, the agent whose connection it was on, and the number
    of its commit if the agent has written it. -/
structure Arrival (A : Type) where
  agent : A
  number : Option Nat
  req : ReportStatusRequest

/-- Any number of agents, and the reporter; `arrivals` is history. -/
structure ReportFlow (A : Type) where
  agents : A → ReportClient
  store : ReportStore
  arrivals : List (Arrival A)

/-- A step of an agent; the reporter reads the next report of a connection, anything at all where
    it is garbled, or a report of a connection that the agent has left; a step of a store
    thread, whose statement may fail. -/
inductive FlowStep (A : Type) where
  | client (a : A) (step : ClientStep)
  | receive (a : A)
  | receiveGarbled (a : A) (req : ReportStatusRequest)
  | receiveOlder (a : A) (report : Report)
  | store (step : ReportStep)
  | storeFails (i : Nat)

/-- The step is one of a store thread. -/
def ReportStep.Stores : ReportStep → Bool
  | .receive _ => false
  | _ => true

/-- The statement of the next row has failed, and the thread goes on with the `rest`. -/
def ReportStore.dropRow (s : ReportStore) (i : Nat) (rest : List (Pending StatusKey CallStatus)) :
    ReportStore :=
  { s with rows := Function.update s.rows i rest }

namespace ReportFlow

variable {A : Type} [DecidableEq A]

def create (table : StatusKey → Option CallStatus) : ReportFlow A :=
  ⟨fun _ => ReportClient.create, ReportStore.start table, []⟩

/-- `get_report_status` on what is read from the agent. -/
def arrive (threadCnt : Nat) (s : ReportFlow A) (arrival : Arrival A) (client : ReportClient) :
    ReportFlow A :=
  { agents := Function.update s.agents arrival.agent client
    store := s.store.getReportStatus threadCnt arrival.req
    arrivals := s.arrivals ++ [arrival] }

def next (cfg : A → LbConfig) (threadCnt : Nat) (s : ReportFlow A) :
    FlowStep A → Option (ReportFlow A)
  | .client a step =>
    ((s.agents a).next (cfg a) step).map fun client =>
      { s with agents := Function.update s.agents a client }
  | .receive a =>
    match (s.agents a).link with
    | some ⟨(number, req) :: rest, garbled⟩ =>
      some (s.arrive threadCnt ⟨a, some number, req⟩
        { s.agents a with link := some ⟨rest, garbled⟩ })
    | _ => none
  | .receiveGarbled a req =>
    if (s.agents a).garbles then some (s.arrive threadCnt ⟨a, none, req⟩ (s.agents a)) else none
  | .receiveOlder a (number, req) =>
    if (number, req) ∈ (s.agents a).older then
      some (s.arrive threadCnt ⟨a, some number, req⟩
        { s.agents a with older := (s.agents a).older.erase (number, req) })
    else none
  | .store step =>
    if step.Stores then (s.store.next threadCnt step).map fun store => { s with store := store }
    else none
  | .storeFails i =>
    match s.store.rows i with
    | [] => none
    | _ :: rest => some { s with store := s.store.dropRow i rest }

end ReportFlow

/-! ## What is promised -/

/-- The commit that has arrived. -/
def Arrival.commit? {A : Type} (arrival : Arrival A) : Option (A × Nat) :=
  arrival.number.map fun number => (arrival.agent, number)

/-- The status tells the counters of a host of the map, as `commit` found them. -/
def Tells (cfg : LbConfig) (commit : Commit) (key : StatusKey) (status : CallStatus) : Prop :=
  ∃ entry, commit.map (pack key.modid key.cmdid) = some entry ∧
    ∃ p ∈ entry.lb.idleList ++ entry.lb.overloadList, ∃ hi, entry.lb.heap.cells p = some hi ∧
      key.ip = hi.ip ∧ key.port = hi.port ∧ key.caller = cfg.localIp ∧
      status = ⟨hi.rsucc, hi.rerr, commit.req.ts, hi.overload⟩

/-- **What the reporter can rely on**: what it receives was committed, each commit arrives at most
    once, and a row of the table tells what a commit told, was there at the start, or came
    from an agent that has lost the bounds of its messages. -/
structure ReportFlow.Accounted {A : Type} (cfg : A → LbConfig)
    (table : StatusKey → Option CallStatus) (s : ReportFlow A) : Prop where
  received : s.store.received = s.arrivals.map Arrival.req
  once : (s.arrivals.filterMap Arrival.commit?).Nodup
  committed : ∀ arrival ∈ s.arrivals, ∀ number, arrival.number = some number →
    ∃ map, (s.agents arrival.agent).commits[number]? = some ⟨map, arrival.req⟩
  made_up : ∀ arrival ∈ s.arrivals, arrival.number = none → (s.agents arrival.agent).torn = true
  rows : ∀ key status, s.store.table key = some status → table key = some status ∨
    (∃ a, ∃ commit ∈ (s.agents a).commits, Tells (cfg a) commit key status) ∨
    ∃ arrival ∈ s.arrivals, arrival.number = none ∧ (key, status) ∈ statusRows arrival.req

/-! ## What a commit tells -/

/-- Each object of the map is filed under its own module, and catalogued. -/
def Kept (map : Agent.RouteMap) : Prop :=
  ∀ key entry, map key = some entry →
    entry.lb.Catalogued ∧ pack entry.lb.modid entry.lb.cmdid = key

section Kept

variable {cfg : LbConfig} {map map' : Agent.RouteMap} {modid cmdid : BitVec 32}

theorem Kept.set (kept : Kept map) {key : BitVec 64} {entry : RouteEntry}
    (hcatalogued : entry.lb.Catalogued) (hkey : pack entry.lb.modid entry.lb.cmdid = key) :
    Kept (map.set key entry) := by
  intro key' entry' hentry'
  by_cases hsame : key' = key
  · subst hsame
    rw [RouteMap.set, Function.update_self] at hentry'
    cases hentry'
    exact ⟨hcatalogued, hkey⟩
  · rw [RouteMap.set, Function.update_of_ne hsame] at hentry'
    exact kept key' entry' hentry'

theorem Kept.getHost (kept : Kept map) {rsp : GetHostResponse} {accessCnt : Int} {number : Nat}
    {result : GetHostResult}
    (hget : map.getHost cfg modid cmdid rsp accessCnt number = Except.ok result) :
    Kept result.map := by
  rcases RouteMap.getHost_cases hget with ⟨entry, lb, hentry, chosen, -, hmap⟩ | ⟨-, -, hmap⟩
  · rw [hmap]
    obtain ⟨hcatalogued, hkey⟩ := kept _ entry hentry
    rcases chosen with rfl | ⟨ret, host, hchoice⟩
    · exact kept.set hcatalogued hkey
    · refine kept.set (hcatalogued.choice hchoice) ?_
      obtain ⟨⟨accessCnt, idle, overload, -, -, rfl⟩, -⟩ :=
        LoadBalance.choiceOneHost_cases hchoice
      exact hkey
  · rw [hmap]
    exact kept.set (LoadBalance.catalogued_create modid cmdid accessCnt) rfl

theorem Kept.updateHost (kept : Kept map) {rsp : GetRouteResponse}
    (hupdate : map.updateHost cfg modid cmdid rsp = Except.ok map') : Kept map' := by
  rcases RouteMap.updateHost_cases hupdate with ⟨-, rfl⟩ | rfl | ⟨entry, lb, hentry, hlb, rfl⟩
  · exact kept
  · intro key' entry' hentry'
    by_cases hsame : key' = pack modid cmdid
    · rw [hsame, RouteMap.erase, Function.update_self] at hentry'
      cases hentry'
    · rw [RouteMap.erase, Function.update_of_ne hsame] at hentry'
      exact kept key' entry' hentry'
  · obtain ⟨hcatalogued, hkey⟩ := kept _ entry hentry
    obtain ⟨hmodid, hcmdid, -⟩ := LoadBalance.update_other hlb
    exact kept.set (hcatalogued.update hlb).1 (by rw [← hkey, hmodid, hcmdid])

/-- `report` keeps the module. -/
theorem report_module {lb lb' : LoadBalance} {ip port retcode : BitVec 32}
    (hreport : lb.report cfg ip port retcode = Except.ok lb') :
    lb'.modid = lb.modid ∧ lb'.cmdid = lb.cmdid := by
  rcases hlookup : lb.hostMap.lookup (pack ip port) with _ | p
  · obtain rfl := Except.ok.inj ((LoadBalance.report_absent hlookup).symm.trans hreport)
    exact ⟨rfl, rfl⟩
  · obtain ⟨old, hcell⟩ := LoadBalance.hostThere_of_report hreport p hlookup
    obtain ⟨heap, idle, overload, hcases, -⟩ :=
      LoadBalance.report_cases cfg hlookup hcell retcode
    obtain rfl := Except.ok.inj (hcases.symm.trans hreport)
    exact ⟨rfl, rfl⟩

theorem Kept.reportHost (kept : Kept map) {ip port retcode ts : BitVec 32}
    {req : Option ReportStatusRequest}
    (hreport : map.reportHost cfg modid cmdid ip port retcode ts = Except.ok (map', req)) :
    Kept map' := by
  rcases RouteMap.reportHost_cases hreport with rfl | ⟨entry, lb, hentry, hlb, rfl⟩
  · exact kept
  · obtain ⟨hcatalogued, hkey⟩ := kept _ entry hentry
    obtain ⟨hmodid, hcmdid⟩ := report_module hlb
    exact kept.set (hcatalogued.report hlb).1 (by rw [← hkey, hmodid, hcmdid])

/-- A host of a report is one of the two lists, with its counters. -/
theorem commit_result {lb : LoadBalance} {ts : BitVec 32} {req : ReportStatusRequest}
    (hcatalogued : lb.Catalogued) (hcommit : lb.commit cfg ts = Except.ok (some req)) :
    req.modid = lb.modid ∧ req.cmdid = lb.cmdid ∧ req.caller = cfg.localIp ∧ req.ts = ts ∧
      ∀ result ∈ req.results, ∃ p ∈ lb.idleList ++ lb.overloadList, ∃ hi,
        lb.heap.cells p = some hi ∧
          result = ⟨hi.ip, hi.port, hi.rsucc, hi.rerr, hi.overload⟩ := by
  unfold LoadBalance.commit at hcommit
  split at hcommit
  · cases hcommit
  rcases hidle : lb.callResults false lb.idleList with fault | idle
  · rw [hidle] at hcommit
    cases hcommit
  rcases hover : lb.callResults true lb.overloadList with fault | overload
  · rw [hidle, hover] at hcommit
    cases hcommit
  rw [hidle, hover] at hcommit
  cases hcommit
  refine ⟨rfl, rfl, rfl, rfl, ?_⟩
  intro result hresult
  rcases List.mem_append.mp hresult with hmem | hmem
  · rw [LoadBalance.callResults_records hidle] at hmem
    obtain ⟨hi, hhi, rfl⟩ := List.mem_map.mp hmem
    obtain ⟨p, hp, hcell⟩ := LoadBalance.mem_records.mp hhi
    refine ⟨p, List.mem_append_left _ hp, hi, hcell, ?_⟩
    rw [hcatalogued.alive.idle_flag hp hcell]
    rfl
  · rw [LoadBalance.callResults_records hover] at hmem
    obtain ⟨hi, hhi, rfl⟩ := List.mem_map.mp hmem
    obtain ⟨p, hp, hcell⟩ := LoadBalance.mem_records.mp hhi
    refine ⟨p, List.mem_append_right _ hp, hi, hcell, ?_⟩
    rw [hcatalogued.alive.overload_flag hp hcell]
    rfl

/-- **The rows of a report tell the counters at its commit.** -/
theorem Kept.tells (kept : Kept map) {ip port retcode ts : BitVec 32} {req : ReportStatusRequest}
    (hreport : map.reportHost cfg modid cmdid ip port retcode ts = Except.ok (map', some req))
    {key : StatusKey} {status : CallStatus} (hrow : (key, status) ∈ statusRows req) :
    Tells cfg ⟨map', req⟩ key status := by
  have kept' := kept.reportHost hreport
  unfold RouteMap.reportHost at hreport
  simp only at hreport
  split at hreport
  · cases hreport
  split at hreport
  · cases hreport
  rename_i entry hentry _ lb hlb
  split at hreport
  · cases hreport
  rename_i report hcommit
  cases hreport
  have hset : map.set (pack modid cmdid) { entry with lb := lb } (pack modid cmdid) =
      some { entry with lb := lb } := Function.update_self _ _ _
  obtain ⟨hcatalogued, hkey⟩ := kept' _ _ hset
  obtain ⟨hmodid, hcmdid, hcaller, hts, hresults⟩ := commit_result hcatalogued hcommit
  obtain ⟨result, hresult, heq⟩ := List.mem_map.mp hrow
  obtain ⟨p, hp, hi, hcell, rfl⟩ := hresults result hresult
  cases heq
  refine ⟨{ entry with lb := lb }, ?_, p, hp, hi, hcell, rfl, rfl, hcaller, rfl⟩
  simp only [hmodid, hcmdid, hkey]
  exact hset

end Kept

/-! ## What a store thread holds -/

/-- All that is queued or stored has been received. -/
structure Fed (table : StatusKey → Option CallStatus) (s : ReportStore) : Prop where
  queues : ∀ i report, report ∈ s.reportQueues i → report.2 ∈ s.received
  msgs : ∀ i report, report ∈ s.reportMsg i → report.2 ∈ s.received
  rows : ∀ i row, row ∈ s.rows i → ∃ req ∈ s.received, (row.key, row.value) ∈ statusRows req
  table : ∀ key status, s.table key = some status → table key = some status ∨
    ∃ req ∈ s.received, (key, status) ∈ statusRows req

section Fed

variable {table : StatusKey → Option CallStatus} {s t : ReportStore} {threadCnt : Nat}

theorem fed_start (table : StatusKey → Option CallStatus) :
    Fed table (ReportStore.start table) where
  queues := nofun
  msgs := nofun
  rows := nofun
  table := fun _ _ hstatus => Or.inl hstatus

theorem mem_update {β : Type} {f : Nat → List β} {i j : Nat} {l : List β} {x : β}
    (hx : x ∈ Function.update f i l j) : x ∈ l ∨ x ∈ f j := by
  by_cases hj : j = i
  · subst hj
    rw [Function.update_self] at hx
    exact Or.inl hx
  · rw [Function.update_of_ne hj] at hx
    exact Or.inr hx

theorem Fed.receive (fed : Fed table s) (req : ReportStatusRequest) :
    Fed table (s.getReportStatus threadCnt req) where
  queues := by
    intro i report hreport
    rcases mem_update hreport with hnew | hold
    · rcases List.mem_append.mp hnew with hold | hlast
      · exact List.mem_append_left _ (fed.queues _ report hold)
      · rw [List.mem_singleton.mp hlast]
        exact List.mem_append_right _ (List.mem_singleton.mpr rfl)
    · exact List.mem_append_left _ (fed.queues i report hold)
  msgs := fun i report hreport => List.mem_append_left _ (fed.msgs i report hreport)
  rows := by
    intro i row hrow
    obtain ⟨req', hreq', hmem⟩ := fed.rows i row hrow
    exact ⟨req', List.mem_append_left _ hreq', hmem⟩
  table := by
    intro key status hstatus
    rcases fed.table key status hstatus with hold | ⟨req', hreq', hmem⟩
    · exact Or.inl hold
    · exact Or.inr ⟨req', List.mem_append_left _ hreq', hmem⟩

theorem Fed.dropRow (fed : Fed table s) {i : Nat} {row : Pending StatusKey CallStatus}
    {rest : List (Pending StatusKey CallStatus)} (hrows : s.rows i = row :: rest) :
    Fed table (s.dropRow i rest) where
  queues := fed.queues
  msgs := fed.msgs
  rows := by
    intro j row' hrow'
    rcases mem_update hrow' with hrest | hold
    · apply fed.rows i row'
      rw [hrows]
      exact List.mem_cons_of_mem row hrest
    · exact fed.rows j row' hold
  table := fed.table

theorem Fed.next (fed : Fed table s) {step : ReportStep}
    (hnext : s.next threadCnt step = some t) (hstores : step.Stores = true) :
    Fed table t ∧ t.received = s.received := by
  cases step with
  | receive req => cases hstores
  | recv i =>
    simp only [ReportStore.next] at hnext
    split at hnext <;> cases hnext
    refine ⟨⟨?_, ?_, fed.rows, fed.table⟩, rfl⟩
    · intro j report hreport
      rcases mem_update hreport with hnew | hold
      · exact absurd hnew List.not_mem_nil
      · exact fed.queues j report hold
    · intro j report hreport
      rcases mem_update hreport with hnew | hold
      · exact fed.queues i report hnew
      · exact fed.msgs j report hold
  | pop i =>
    simp only [ReportStore.next] at hnext
    split at hnext <;> cases hnext
    rename_i number req rest hrows hmsg
    have hall : ∀ report ∈ (number, req) :: rest, report.2 ∈ s.received := by
      rw [← hmsg]
      exact fun report hreport => fed.msgs i report hreport
    refine ⟨⟨fed.queues, ?_, ?_, fed.table⟩, rfl⟩
    · intro j report hreport
      rcases mem_update hreport with hnew | hold
      · exact hall report (List.mem_cons_of_mem _ hnew)
      · exact fed.msgs j report hold
    · intro j row hrow
      rcases mem_update hrow with hnew | hold
      · obtain ⟨pair, hpair, rfl⟩ := List.mem_map.mp hnew
        exact ⟨req, hall _ List.mem_cons_self, hpair⟩
      · exact fed.rows j row hold
  | store i =>
    simp only [ReportStore.next] at hnext
    split at hnext <;> cases hnext
    rename_i row rest hrows
    have hall : ∀ row' ∈ row :: rest, ∃ req ∈ s.received,
        (row'.key, row'.value) ∈ statusRows req := by
      rw [← hrows]
      exact fun row' hrow' => fed.rows i row' hrow'
    refine ⟨⟨fed.queues, fed.msgs, ?_, ?_⟩, rfl⟩
    · intro j row' hrow'
      rcases mem_update hrow' with hnew | hold
      · exact hall row' (List.mem_cons_of_mem _ hnew)
      · exact fed.rows j row' hold
    · intro key status hstatus
      by_cases hkey : key = row.key
      · subst hkey
        simp only [Function.update_self, Option.some.injEq] at hstatus
        exact Or.inr (hstatus ▸ hall row List.mem_cons_self)
      · simp only [Function.update_of_ne hkey] at hstatus
        exact fed.table key status hstatus

end Fed

/-! ## Each commit in one place -/

/-- The reports have numbers of their own, and are those of the commits of these numbers. -/
structure Numbered (commits : List Commit) (reports : Multiset Report) : Prop where
  nodup : (reports.map Prod.fst).Nodup
  committed : ∀ n req, (n, req) ∈ reports → ∃ map, commits[n]? = some ⟨map, req⟩

section Numbered

variable {commits : List Commit} {reports fewer : Multiset Report}

/-- Reports may be lost. -/
theorem Numbered.mono (numbered : Numbered commits reports) (hle : fewer ≤ reports) :
    Numbered commits fewer where
  nodup := Multiset.nodup_of_le (Multiset.map_le_map hle) numbered.nodup
  committed := fun n req hmem => numbered.committed n req (Multiset.mem_of_le hle hmem)

theorem Numbered.lt (numbered : Numbered commits reports) {report : Report}
    (hmem : report ∈ reports) : report.1 < commits.length := by
  obtain ⟨map, hcommit⟩ := numbered.committed report.1 report.2 hmem
  exact (List.getElem?_eq_some_iff.mp hcommit).1

theorem Numbered.commit (numbered : Numbered commits reports) (map : Agent.RouteMap)
    (req : ReportStatusRequest) :
    Numbered (commits ++ [⟨map, req⟩]) ((commits.length, req) ::ₘ reports) where
  nodup := by
    rw [Multiset.map_cons, Multiset.nodup_cons]
    refine ⟨?_, numbered.nodup⟩
    intro hmem
    obtain ⟨report, hreport, hnumber⟩ := Multiset.mem_map.mp hmem
    have hlt := numbered.lt hreport
    omega
  committed := by
    intro n req' hmem
    rcases Multiset.mem_cons.mp hmem with heq | hold
    · cases heq
      exact ⟨map, by simp⟩
    · obtain ⟨map', hcommit⟩ := numbered.committed n req' hold
      have hlt : n < commits.length := (List.getElem?_eq_some_iff.mp hcommit).1
      exact ⟨map', by rw [List.getElem?_append_left hlt]; exact hcommit⟩

end Numbered

theorem Flight.append_sublist (flight : Flight) (spoiled : Bool) (report : Report) :
    (flight.append spoiled report).reports.Sublist (flight.reports ++ [report]) := by
  unfold append
  split
  · exact List.sublist_append_left _ _
  · exact List.Sublist.refl _

namespace ReportClient

def flying (c : ReportClient) : List Report := c.link.elim [] Flight.reports

/-- What is on its way, the last commit at the end. -/
def queued (c : ReportClient) : List Report :=
  c.flying ++ (c.obuf ++ (c.msgs ++ c.reportQueue))

/-- What may still arrive. -/
def waiting (c : ReportClient) : Multiset Report := c.older + c.queued

/-- What is written begins with a message wherever it is looked at. -/
structure Aligned (c : ReportClient) : Prop where
  spoiled : c.spoiled = false
  cut : c.link = none → c.cut = false
  link : ∀ flight, c.link = some flight → flight.garbled = false
  older : c.olderGarbled = false

/-- What holds of an agent of whose reports some have arrived. -/
structure Inv (cfg : LbConfig) (c : ReportClient) (arrived : Multiset Report) : Prop where
  maps : ∀ i, Kept (c.routeLbs i)
  told : ∀ commit ∈ c.commits, ∀ row ∈ statusRows commit.req, Tells cfg commit row.1 row.2
  numbered : Numbered c.commits (arrived + c.waiting)
  aligned : c.torn = false → c.Aligned

/-- A step that touches neither the maps nor what was committed. -/
structure Moves (c c' : ReportClient) : Prop where
  routes : c'.routeLbs = c.routeLbs
  commits : c'.commits = c.commits
  waiting : c'.waiting ≤ c.waiting
  torn : c.torn = true → c'.torn = true
  aligned : c'.torn = false → c.Aligned → c'.Aligned

theorem inv_create (cfg : LbConfig) : create.Inv cfg 0 where
  maps := fun _ _ _ hentry => nomatch hentry
  told := nofun
  numbered := ⟨Multiset.nodup_zero, nofun⟩
  aligned := fun _ => ⟨rfl, fun _ => rfl, nofun, rfl⟩

section Moves

variable {cfg : LbConfig} {c c' : ReportClient}

theorem waiting_le (holder : c'.older = c.older) (hqueued : c'.queued.Sublist c.queued) :
    c'.waiting ≤ c.waiting := by
  unfold waiting
  rw [holder]
  exact Multiset.add_le_add_left (Multiset.coe_le.mpr hqueued.subperm)

theorem moves_recv (hnext : c.next cfg .recv = some c') : c.Moves c' := by
  simp only [next] at hnext
  split at hnext <;> cases hnext
  rename_i hmsgs
  refine ⟨rfl, rfl, waiting_le rfl ?_, id, fun _ aligned => ?_⟩
  · simp [queued, flying, hmsgs]
  · exact ⟨aligned.spoiled, aligned.cut, aligned.link, aligned.older⟩

theorem moves_sendMessage {result : SendResult}
    (hnext : c.next cfg (.sendMessage result) = some c') : c.Moves c' := by
  simp only [next] at hnext
  split at hnext <;> cases hnext
  rename_i report rest hmsgs
  have hdropped : ({ c with msgs := rest } : ReportClient).queued.Sublist c.queued := by
    simp [queued, flying, hmsgs]
  cases result with
  | accepted =>
    refine ⟨rfl, rfl, waiting_le rfl ?_, id, fun _ aligned => ?_⟩
    · simp [queued, flying, hmsgs, sendMessage]
    · exact ⟨aligned.spoiled, aligned.cut, aligned.link, aligned.older⟩
  | headRefused =>
    refine ⟨rfl, rfl, waiting_le rfl hdropped, id, fun _ aligned => ?_⟩
    exact ⟨aligned.spoiled, aligned.cut, aligned.link, aligned.older⟩
  | bodyRefused =>
    simp only [sendMessage]
    split
    · refine ⟨rfl, rfl, waiting_le rfl hdropped, id, fun _ aligned => ?_⟩
      exact ⟨aligned.spoiled, aligned.cut, aligned.link, aligned.older⟩
    · exact ⟨rfl, rfl, waiting_le rfl hdropped, fun _ => rfl, nofun⟩

theorem moves_beginWrite (hnext : c.next cfg .beginWrite = some c') : c.Moves c' := by
  simp only [next] at hnext
  split at hnext
  · cases hnext
  rename_i flight hlink
  split at hnext <;> cases hnext
  refine ⟨rfl, rfl, waiting_le rfl ?_, id, fun _ aligned => ⟨aligned.spoiled, nofun, ?_,
    aligned.older⟩⟩
  · simp [queued, flying, hlink]
  · intro flight' hflight
    cases hflight
    simp [aligned.link flight hlink, aligned.spoiled]

theorem moves_write (hnext : c.next cfg .write = some c') : c.Moves c' := by
  simp only [next] at hnext
  split at hnext
  · cases hnext
  · rename_i flight report rest hlink hobuf
    cases hnext
    refine ⟨rfl, rfl, waiting_le rfl ?_, id, fun _ aligned => ⟨aligned.spoiled, nofun, ?_,
      aligned.older⟩⟩
    · have hsub := (flight.append_sublist c.spoiled report).append_right
        (rest ++ (c.msgs ++ c.reportQueue))
      simpa [queued, flying, hlink, hobuf] using hsub
    · intro flight' hflight
      cases hflight
      simp [Flight.append, aligned.link flight hlink, aligned.spoiled]
  · rename_i flight hlink hobuf
    split at hnext <;> cases hnext
    rename_i hspoiled
    refine ⟨rfl, rfl, waiting_le rfl ?_, id, fun _ aligned => ?_⟩
    · simp [queued, flying, hlink]
    · rw [aligned.spoiled] at hspoiled
      cases hspoiled

theorem moves_drop (hnext : c.next cfg .drop = some c') : c.Moves c' := by
  simp only [next] at hnext
  split at hnext <;> cases hnext
  rename_i flight hlink
  refine ⟨rfl, rfl, ?_, fun htorn => by simp [htorn], fun hwhole aligned => ?_⟩
  · apply le_of_eq
    simp only [waiting, queued, flying, hlink, Option.elim_none, Option.elim_some, List.nil_append,
      ← Multiset.coe_add, Multiset.add_assoc]
  · obtain ⟨-, hcut⟩ := Bool.or_eq_false_iff.mp hwhole
    refine ⟨aligned.spoiled, fun _ => hcut, nofun, ?_⟩
    simp [aligned.older, aligned.link flight hlink]

theorem moves_lose {report : Report} (hnext : c.next cfg (.lose report) = some c') :
    c.Moves c' := by
  simp only [next] at hnext
  split at hnext <;> cases hnext
  refine ⟨rfl, rfl, ?_, id, fun _ aligned => ?_⟩
  · exact Multiset.add_le_add_right (Multiset.erase_le report c.older)
  · exact ⟨aligned.spoiled, aligned.cut, aligned.link, aligned.older⟩

theorem moves_connect (hnext : c.next cfg .connect = some c') : c.Moves c' := by
  simp only [next] at hnext
  split at hnext <;> cases hnext
  rename_i hlink
  refine ⟨rfl, rfl, waiting_le rfl ?_, id, fun _ aligned => ⟨aligned.spoiled, nofun, ?_,
    aligned.older⟩⟩
  · simp [queued, flying, hlink]
  · intro flight hflight
    cases hflight
    exact aligned.cut hlink

end Moves

/-! ### One step of an agent -/

section Next

variable {cfg : LbConfig} {c c' : ReportClient} {arrived : Multiset Report}

theorem Inv.moves (inv : c.Inv cfg arrived) (hmoves : c.Moves c') : c'.Inv cfg arrived where
  maps := by
    rw [hmoves.routes]
    exact inv.maps
  told := by
    rw [hmoves.commits]
    exact inv.told
  numbered := by
    rw [hmoves.commits]
    exact inv.numbered.mono (Multiset.add_le_add_left hmoves.waiting)
  aligned := by
    intro hwhole
    refine hmoves.aligned hwhole (inv.aligned (Bool.eq_false_iff.mpr fun htorn => ?_))
    rw [hmoves.torn htorn] at hwhole
    cases hwhole

theorem Inv.setRoutes (inv : c.Inv cfg arrived) {i : Fin 3} {map : Agent.RouteMap}
    (kept : Kept map) : (c.setRoutes i map).Inv cfg arrived := by
  refine ⟨?_, inv.told, inv.numbered, fun hwhole => ?_⟩
  · intro j
    by_cases hj : j = i
    · subst hj
      simp only [ReportClient.setRoutes, Function.update_self]
      exact kept
    · simp only [ReportClient.setRoutes, Function.update_of_ne hj]
      exact inv.maps j
  · have aligned := inv.aligned hwhole
    exact ⟨aligned.spoiled, aligned.cut, aligned.link, aligned.older⟩

theorem Inv.commit (inv : c.Inv cfg arrived) {map : Agent.RouteMap} {req : ReportStatusRequest}
    (htells : ∀ row ∈ statusRows req, Tells cfg ⟨map, req⟩ row.1 row.2) :
    (c.commit map (some req)).Inv cfg arrived := by
  refine ⟨inv.maps, ?_, ?_, fun hwhole => ?_⟩
  · intro commit hcommit
    rcases List.mem_append.mp hcommit with hold | hnew
    · exact inv.told commit hold
    · rw [List.mem_singleton.mp hnew]
      exact htells
  · have hqueued : (c.commit map (some req)).queued = c.queued ++ [(c.commits.length, req)] := by
      simp [queued, flying, ReportClient.commit]
    have hwaiting : arrived + (c.commit map (some req)).waiting =
        (c.commits.length, req) ::ₘ (arrived + c.waiting) := by
      unfold waiting
      rw [hqueued, ← Multiset.coe_add, Multiset.coe_singleton, ← Multiset.add_assoc,
        ← Multiset.add_assoc, Multiset.add_comm _ {_}, Multiset.singleton_add, Multiset.add_assoc]
      rfl
    rw [hwaiting]
    exact inv.numbered.commit map req
  · have aligned := inv.aligned hwhole
    exact ⟨aligned.spoiled, aligned.cut, aligned.link, aligned.older⟩

/-- **A step of an agent**: what may still arrive becomes less, or a commit more. -/
theorem Inv.next (inv : c.Inv cfg arrived) {step : ClientStep}
    (hnext : c.next cfg step = some c') :
    c'.Inv cfg arrived ∧ (c.torn = true → c'.torn = true) := by
  have hmoved (hmoves : c.Moves c') : c'.Inv cfg arrived ∧ (c.torn = true → c'.torn = true) :=
    ⟨inv.moves hmoves, hmoves.torn⟩
  cases step with
  | getHost i seq modid cmdid accessCnt =>
    simp only [ReportClient.next] at hnext
    split at hnext <;> cases hnext
    rename_i hget
    exact ⟨inv.setRoutes ((inv.maps i).getHost hget), id⟩
  | updateHost i modid cmdid rsp =>
    simp only [ReportClient.next] at hnext
    split at hnext <;> cases hnext
    rename_i hupdate
    exact ⟨inv.setRoutes ((inv.maps i).updateHost hupdate), id⟩
  | reportHost i modid cmdid ip port retcode ts =>
    simp only [ReportClient.next] at hnext
    split at hnext <;> cases hnext
    rename_i map req hreport
    have inv' := inv.setRoutes ((inv.maps i).reportHost hreport) (i := i)
    cases req with
    | none => exact ⟨inv', id⟩
    | some req => exact ⟨inv'.commit fun row hrow => (inv.maps i).tells hreport hrow, id⟩
  | recv => exact hmoved (moves_recv hnext)
  | sendMessage result => exact hmoved (moves_sendMessage hnext)
  | beginWrite => exact hmoved (moves_beginWrite hnext)
  | write => exact hmoved (moves_write hnext)
  | drop => exact hmoved (moves_drop hnext)
  | lose report => exact hmoved (moves_lose hnext)
  | connect => exact hmoved (moves_connect hnext)

/-- The reporter reads one of the reports under way. -/
theorem Inv.receive (inv : c.Inv cfg arrived) {report : Report}
    (hroutes : c'.routeLbs = c.routeLbs) (hcommits : c'.commits = c.commits)
    (hwaiting : c.waiting = report ::ₘ c'.waiting) (haligned : c'.torn = false → c'.Aligned) :
    c'.Inv cfg (report ::ₘ arrived) where
  maps := by
    rw [hroutes]
    exact inv.maps
  told := by
    rw [hcommits]
    exact inv.told
  numbered := by
    rw [hcommits, Multiset.cons_add, ← Multiset.add_cons, ← hwaiting]
    exact inv.numbered
  aligned := haligned

theorem not_garbles (aligned : c.Aligned) : c.garbles = false := by
  unfold garbles
  rw [aligned.older, Bool.false_or]
  split
  · rename_i hlink
    exact aligned.link _ hlink
  · rfl

end Next

end ReportClient

/-! ## Runs -/

namespace ReportFlow

variable {A : Type} [DecidableEq A]

/-- The report of the agent that has arrived. -/
def reportOf (a : A) (arrival : Arrival A) : Option Report :=
  if arrival.agent = a then arrival.number.map fun number => (number, arrival.req) else none

def arrived (s : ReportFlow A) (a : A) : Multiset Report :=
  (s.arrivals.filterMap (reportOf a) : List Report)

structure Inv (cfg : A → LbConfig) (table : StatusKey → Option CallStatus)
    (s : ReportFlow A) : Prop where
  agents : ∀ a, (s.agents a).Inv (cfg a) (s.arrived a)
  fed : Fed table s.store
  received : s.store.received = s.arrivals.map Arrival.req
  made_up : ∀ arrival ∈ s.arrivals, arrival.number = none → (s.agents arrival.agent).torn = true

section Steps

variable {cfg : A → LbConfig} {threadCnt : Nat} {table : StatusKey → Option CallStatus}
  {s t : ReportFlow A} {arrival : Arrival A} {client : ReportClient} {a : A}

theorem inv_create (cfg : A → LbConfig) (table : StatusKey → Option CallStatus) :
    (create table : ReportFlow A).Inv cfg table where
  agents := fun a => ReportClient.inv_create (cfg a)
  fed := fed_start table
  received := rfl
  made_up := nofun

theorem arrived_number {number : Nat} (hnumber : arrival.number = some number) :
    (s.arrive threadCnt arrival client).arrived arrival.agent =
      (number, arrival.req) ::ₘ s.arrived arrival.agent := by
  have hof : reportOf arrival.agent arrival = some (number, arrival.req) := by
    simp [reportOf, hnumber]
  unfold arrived arrive
  rw [List.filterMap_append, List.filterMap_cons_some hof, List.filterMap_nil, ← Multiset.coe_add,
    Multiset.coe_singleton, Multiset.add_comm, Multiset.singleton_add]

theorem arrived_none (hnone : reportOf a arrival = none) :
    (s.arrive threadCnt arrival client).arrived a = s.arrived a := by
  unfold arrived arrive
  rw [List.filterMap_append, List.filterMap_cons_none hnone, List.filterMap_nil, List.append_nil]

/-- An agent has taken a step, or something of it was read. -/
theorem torn_update {b : A} (htorn : (s.agents a).torn = true → client.torn = true)
    (hbefore : (s.agents b).torn = true) : (Function.update s.agents a client b).torn = true := by
  by_cases hb : b = a
  · subst hb
    rw [Function.update_self]
    exact htorn hbefore
  · rw [Function.update_of_ne hb]
    exact hbefore

theorem Inv.step_agent (inv : s.Inv cfg table) (hclient : client.Inv (cfg a) (s.arrived a))
    (htorn : (s.agents a).torn = true → client.torn = true) :
    Inv cfg table { s with agents := Function.update s.agents a client } where
  agents := by
    intro b
    by_cases hb : b = a
    · subst hb
      simp only [Function.update_self]
      exact hclient
    · simp only [Function.update_of_ne hb]
      exact inv.agents b
  fed := inv.fed
  received := inv.received
  made_up := fun arrival hmem hnone => torn_update htorn (inv.made_up arrival hmem hnone)

theorem Inv.arrive (inv : s.Inv cfg table)
    (hclient : client.Inv (cfg arrival.agent)
      ((s.arrive threadCnt arrival client).arrived arrival.agent))
    (hmade : arrival.number = none → client.torn = true)
    (htorn : (s.agents arrival.agent).torn = true → client.torn = true) :
    (s.arrive threadCnt arrival client).Inv cfg table where
  agents := by
    intro b
    by_cases hb : b = arrival.agent
    · subst hb
      simp only [ReportFlow.arrive, Function.update_self]
      exact hclient
    · rw [arrived_none (if_neg (Ne.symm hb))]
      simp only [ReportFlow.arrive, Function.update_of_ne hb]
      exact inv.agents b
  fed := inv.fed.receive arrival.req
  received := by
    unfold ReportFlow.arrive
    rw [List.map_append, ← inv.received]
    rfl
  made_up := by
    intro arrival' hmem hnone
    rcases List.mem_append.mp hmem with hold | hnew
    · exact torn_update htorn (inv.made_up arrival' hold hnone)
    · rw [List.mem_singleton.mp hnew] at hnone ⊢
      simp only [ReportFlow.arrive, Function.update_self]
      exact hmade hnone

theorem Inv.next (inv : s.Inv cfg table) {step : FlowStep A}
    (hnext : s.next cfg threadCnt step = some t) : t.Inv cfg table := by
  cases step with
  | client a step =>
    obtain ⟨client, hclient, rfl⟩ := Option.map_eq_some_iff.mp hnext
    obtain ⟨hinv, htorn⟩ := (inv.agents a).next hclient
    exact inv.step_agent hinv htorn
  | receive a =>
    simp only [ReportFlow.next] at hnext
    split at hnext <;> cases hnext
    rename_i number req rest garbled hlink
    refine inv.arrive ?_ nofun id
    rw [arrived_number rfl]
    refine (inv.agents a).receive rfl rfl ?_ fun hwhole => ?_
    · simp only [ReportClient.waiting, ReportClient.queued, ReportClient.flying, hlink,
        Option.elim_some, List.cons_append]
      rw [← Multiset.cons_coe, Multiset.add_cons]
    · have aligned := (inv.agents a).aligned hwhole
      refine ⟨aligned.spoiled, nofun, ?_, aligned.older⟩
      intro flight hflight
      cases hflight
      have hclear := aligned.link _ hlink
      exact hclear
  | receiveGarbled a req =>
    simp only [ReportFlow.next] at hnext
    split at hnext <;> cases hnext
    rename_i hgarbles
    refine inv.arrive ?_ (fun _ => ?_) id
    · rw [arrived_none (by simp [reportOf])]
      exact inv.agents a
    · by_contra hwhole
      rw [ReportClient.not_garbles ((inv.agents a).aligned (Bool.eq_false_iff.mpr hwhole))]
        at hgarbles
      cases hgarbles
  | receiveOlder a report =>
    obtain ⟨number, req⟩ := report
    simp only [ReportFlow.next] at hnext
    split at hnext <;> cases hnext
    rename_i hmem
    refine inv.arrive ?_ nofun id
    rw [arrived_number rfl]
    refine (inv.agents a).receive rfl rfl ?_ fun hwhole => ?_
    · unfold ReportClient.waiting
      rw [← Multiset.cons_add, Multiset.cons_erase hmem]
      rfl
    · have aligned := (inv.agents a).aligned hwhole
      exact ⟨aligned.spoiled, aligned.cut, aligned.link, aligned.older⟩
  | store step =>
    simp only [ReportFlow.next] at hnext
    split at hnext
    · rename_i hstores
      obtain ⟨store, hstore, rfl⟩ := Option.map_eq_some_iff.mp hnext
      obtain ⟨hfed, hreceived⟩ := inv.fed.next hstore hstores
      exact ⟨inv.agents, hfed, hreceived.trans inv.received, inv.made_up⟩
    · cases hnext
  | storeFails i =>
    simp only [ReportFlow.next] at hnext
    split at hnext <;> cases hnext
    rename_i hrows
    exact ⟨inv.agents, inv.fed.dropRow hrows, inv.received, inv.made_up⟩

end Steps

/-- No commit arrives twice where none does of one agent. -/
theorem nodup_commits {arrivals : List (Arrival A)}
    (hagents : ∀ a, ((arrivals.filterMap (reportOf a)).map Prod.fst).Nodup) :
    (arrivals.filterMap Arrival.commit?).Nodup := by
  induction arrivals with
  | nil => exact List.nodup_nil
  | cons arrival rest ih =>
    have hrest : ∀ a, ((rest.filterMap (reportOf a)).map Prod.fst).Nodup := by
      intro a
      refine (hagents a).sublist (List.Sublist.map _ ?_)
      exact (List.sublist_cons_self arrival rest).filterMap _
    rcases hnumber : arrival.number with _ | number
    · rw [List.filterMap_cons_none (by simp [Arrival.commit?, hnumber])]
      exact ih hrest
    · have hof : reportOf arrival.agent arrival = some (number, arrival.req) := by
        simp [reportOf, hnumber]
      have hnodup := hagents arrival.agent
      rw [List.filterMap_cons_some hof, List.map_cons, List.nodup_cons] at hnodup
      have hcommit : arrival.commit? = some (arrival.agent, number) := by
        simp [Arrival.commit?, hnumber]
      rw [List.filterMap_cons_some hcommit, List.nodup_cons]
      refine ⟨?_, ih hrest⟩
      intro hmem
      apply hnodup.1
      obtain ⟨other, hother, heq⟩ := List.mem_filterMap.mp hmem
      obtain ⟨number', hnumber', hpair⟩ := Option.map_eq_some_iff.mp heq
      obtain ⟨hagent, rfl⟩ := Prod.mk.inj hpair
      refine List.mem_map.mpr ⟨(number', other.req), List.mem_filterMap.mpr ⟨other, hother, ?_⟩,
        rfl⟩
      simp [reportOf, hagent, hnumber']

/-- What has arrived from an agent is one of its commits. -/
theorem Inv.committed {cfg : A → LbConfig} {table : StatusKey → Option CallStatus}
    {s : ReportFlow A} (inv : s.Inv cfg table) {arrival : Arrival A} (hmem : arrival ∈ s.arrivals)
    {number : Nat} (hnumber : arrival.number = some number) :
    ∃ map, (s.agents arrival.agent).commits[number]? = some ⟨map, arrival.req⟩ := by
  have hof : reportOf arrival.agent arrival = some (number, arrival.req) := by
    simp [reportOf, hnumber]
  have harrived : (number, arrival.req) ∈ s.arrived arrival.agent :=
    List.mem_filterMap.mpr ⟨arrival, hmem, hof⟩
  exact (inv.agents arrival.agent).numbered.committed number arrival.req
    (Multiset.mem_add.mpr (Or.inl harrived))

theorem Inv.accounts {cfg : A → LbConfig} {table : StatusKey → Option CallStatus}
    {s : ReportFlow A} (inv : s.Inv cfg table) : s.Accounted cfg table where
  received := inv.received
  once := by
    refine nodup_commits fun a => ?_
    have hnodup := ((inv.agents a).numbered.mono (Multiset.le_add_right _ _)).nodup
    rw [arrived, Multiset.map_coe, Multiset.coe_nodup] at hnodup
    exact hnodup
  committed := fun arrival hmem number hnumber => inv.committed hmem hnumber
  made_up := inv.made_up
  rows := by
    intro key status hstatus
    rcases inv.fed.table key status hstatus with hold | ⟨req, hreq, hrow⟩
    · exact Or.inl hold
    right
    rw [inv.received] at hreq
    obtain ⟨arrival, hmem, rfl⟩ := List.mem_map.mp hreq
    rcases hnumber : arrival.number with _ | number
    · exact Or.inr ⟨arrival, hmem, hnumber, hrow⟩
    · left
      obtain ⟨map, hcommit⟩ := inv.committed hmem hnumber
      have hcommits := List.mem_of_getElem? hcommit
      have htold := (inv.agents arrival.agent).told ⟨map, arrival.req⟩ hcommits (key, status) hrow
      exact ⟨arrival.agent, ⟨map, arrival.req⟩, hcommits, htold⟩

/-- **The reporter's table is accounted for**: in every run of agents, connections, reporter and
    store threads. -/
theorem accounted {cfg : A → LbConfig} {threadCnt : Nat} {table : StatusKey → Option CallStatus}
    {labels : List (FlowStep A)} {s : ReportFlow A}
    (run : Run (ofOption (next cfg threadCnt)) (create table) labels s) :
    s.Accounted cfg table := by
  have hstep : ∀ s label t, s.Inv cfg table → ofOption (next cfg threadCnt) s label t →
      t.Inv cfg table := fun s label t inv hnext => inv.next hnext
  have inv := run.invariant hstep (inv_create cfg table)
  exact inv.accounts

/-- A host is known, and a call of it reported; the report is packed and the client connected. -/
def committing (i : Fin 3) (a : Bool) (ip ts : BitVec 32) : List (FlowStep Bool) :=
  [.client a (.getHost i 1 1 2 0), .client a (.updateHost i 1 2 ⟨1, 2, [⟨ip, 80⟩]⟩),
    .client a (.reportHost i 1 2 ip 80 RET_SUCC ts), .client a .recv,
    .client a (.sendMessage .accepted), .client a .connect]

/-- One agent has written its report when its connection ends; the other has begun to, and the
    reporter reads the rest of it as a report. -/
def accountedLabels (i : Fin 3) : List (FlowStep Bool) :=
  committing i false 9 5 ++ committing i true 8 6 ++
    [.client false .write, .client false .drop,
      .client true .beginWrite, .client true .drop, .client true .connect,
      .receiveGarbled true ⟨3, 4, 7, [⟨1, 80, 1, 1, false⟩], 2⟩,
      .receiveOlder false (0, ⟨1, 2, 0, [⟨9, 80, 1, 0, false⟩], 5⟩),
      .store (.recv 0), .store (.pop 0), .store (.store 0),
      .store (.recv 1), .store (.pop 1), .store (.store 1)]

theorem accounted_garbled :
    ∃ s, Run (ofOption (next (fun _ => Balancer.defaultConfig) 2)) (create fun _ => none)
        (accountedLabels 0) s ∧
      s.store.table ⟨1, 2, 9, 80, 0⟩ = some ⟨1, 0, 5, false⟩ ∧
      s.store.table ⟨3, 4, 1, 80, 7⟩ = some ⟨1, 1, 2, false⟩ ∧
      s.Accounted (fun _ => Balancer.defaultConfig) fun _ => none := by
  obtain ⟨s, hrun, hwritten, hgarbled⟩ : ∃ s,
      Run (ofOption (next (fun _ => Balancer.defaultConfig) 2)) (create fun _ => none)
        (accountedLabels 0) s ∧
      s.store.table ⟨1, 2, 9, 80, 0⟩ = some ⟨1, 0, 5, false⟩ ∧
      s.store.table ⟨3, 4, 1, 80, 7⟩ = some ⟨1, 1, 2, false⟩ :=
    ⟨_, run_of_foldlM rfl, rfl, rfl⟩
  exact ⟨s, hrun, hwritten, hgarbled, accounted hrun⟩

end ReportFlow

end LarsSystem.Reporter
