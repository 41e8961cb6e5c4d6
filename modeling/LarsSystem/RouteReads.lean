import LarsSystem.ListedHosts
import LarsSystem.RouteAnswer
import LarsSystem.RouteMonitor
import LarsSystem.RouteSystem

/-!
# From the table of routes to the callers

The whole way of a host: writers change `RouteData`, the monitor loads it and swaps
it in, the service answers and pushes from the map that is in place, a response goes
over the connection, the agent installs it, and `get_host` hands the host out. Each
of these has a copy, and each copy is older than the one it was made from; but no
copy is replaced by an older one, not even over a connection that was lost and set
up again. So the hosts that callers get for a module are read from the table in the
order in which it was written.

Responses come one behind the other with nothing but their lengths between them, and
the client keeps what it has read of one when a connection ends. From there on it may
take other bytes for a response; the results are about runs in which it does not come
to that.
-/

namespace LarsSystem.Dns

open LarsSystem.MachineWord

/-! ## Contents of the table -/

/-- The rows have the host for the module; a negative port has borrowed from the address. -/
def RowsList (rows : List RouteRow) (mod : Mod) (h : HostEntry) : Prop :=
  ∃ row ∈ rows, pack row.modid row.cmdid = mod ∧ h = borrowed ⟨row.serverip, row.serverport⟩

/-- The map is that of the contents of a time. -/
def MapAt (contents : List (List RouteRow)) (time : Nat) (map : RouteMap) : Prop :=
  ∃ rows, contents[time]? = some rows ∧ map = Route.mapOf rows

/-- The host was in the table at a time. -/
def HostAt (contents : List (List RouteRow)) (mod : Mod) (time : Nat) (h : HostEntry) : Prop :=
  ∃ rows, contents[time]? = some rows ∧ RowsList rows mod h

section Contents

variable {contents more : List (List RouteRow)} {time : Nat}

theorem getElem?_append_of_some {rows : List RouteRow} (hrows : contents[time]? = some rows) :
    (contents ++ more)[time]? = some rows := by
  obtain ⟨hlt, -⟩ := List.getElem?_eq_some_iff.mp hrows
  rw [List.getElem?_append_left hlt]
  exact hrows

theorem MapAt.append {map : RouteMap} (hmap : MapAt contents time map) :
    MapAt (contents ++ more) time map := by
  obtain ⟨rows, hrows, heq⟩ := hmap
  exact ⟨rows, getElem?_append_of_some hrows, heq⟩

theorem HostAt.append {mod : Mod} {h : HostEntry} (hhost : HostAt contents mod time h) :
    HostAt (contents ++ more) mod time h := by
  obtain ⟨rows, hrows, hlist⟩ := hhost
  exact ⟨rows, getElem?_append_of_some hrows, hlist⟩

/-- A host of an answer was in the table. -/
theorem MapAt.host {map : RouteMap} (hmap : MapAt contents time map) {modid cmdid : BitVec 32}
    {h : HostEntry} (hmem : h ∈ (Route.getHosts map modid cmdid).map HostEntry.ofKey) :
    HostAt contents (pack modid cmdid) time h := by
  obtain ⟨rows, hrows, rfl⟩ := hmap
  obtain ⟨value, hvalue, rfl⟩ := List.mem_map.mp hmem
  obtain ⟨row, hrow, rfl, rfl, rfl⟩ := Route.mem_mapOf.mp hvalue
  exact ⟨rows, hrows, row, hrow, rfl, ofKey_pack _ _⟩

end Contents

/-! ## The monitor -/

/-- What a statement of a writer adds to the contents. -/
def written (contents : List (List RouteRow)) : MonitorLabel → List (List RouteRow)
  | .writeData rows => contents ++ [rows]
  | _ => contents

namespace Monitor

/-- Between a query of `load_route_data` and the `swap` behind it. -/
def Loaded (m : Monitor) : Prop :=
  match m.pc with
  | .dataLoaded _ => True
  | .dataReloaded _ => True
  | _ => False

/-- What a step does to the table and to the two maps. -/
inductive Moves (m m' : Monitor) : MonitorLabel → Prop
  | writes (rows : List RouteRow) (htable : m'.tables.routeData = rows)
      (hroute : m'.route = m.route) (hpc : m'.pc = m.pc) : Moves m m' (.writeData rows)
  | keeps {label : MonitorLabel} (hlabel : ∀ contents, written contents label = contents)
      (htable : m'.tables.routeData = m.tables.routeData) (hdata : m'.route.data = m.route.data)
      (htemp : m'.route.temp = m.route.temp) (hloaded : Loaded m' → Loaded m) : Moves m m' label
  | loads {label : MonitorLabel} (hlabel : ∀ contents, written contents label = contents)
      (htable : m'.tables.routeData = m.tables.routeData) (hdata : m'.route.data = m.route.data)
      (htemp : m'.route.temp = Route.mapOf m.tables.routeData) : Moves m m' label
  | swaps (hloaded : Loaded m) (htable : m'.tables.routeData = m.tables.routeData)
      (hdata : m'.route.data = m.route.temp) (hdone : ¬ Loaded m') : Moves m m' .swap

theorem removeChanges_routeData (route : Route) (tables : Tables) (removeAll ok : Bool) :
    (route.removeChanges tables removeAll ok).routeData = tables.routeData := by
  unfold Route.removeChanges
  split <;> rfl

theorem loadVersion_maps (route : Route) (answer : Option (Option Nat)) :
    (route.loadVersion answer).2.data = route.data ∧
      (route.loadVersion answer).2.temp = route.temp := by
  unfold Route.loadVersion
  split
  · exact ⟨rfl, rfl⟩
  · exact ⟨rfl, rfl⟩
  · split <;> exact ⟨rfl, rfl⟩

theorem next_moves {m m' : Monitor} {label : MonitorLabel}
    (hnext : m.next label = some m') : Moves m m' label := by
  cases label with
  | writeData rows =>
    cases hnext
    exact Moves.writes rows rfl rfl rfl
  | setVersion version =>
    cases hnext
    exact Moves.keeps (fun _ => rfl) rfl rfl rfl id
  | insertChange modid cmdid version =>
    cases hnext
    exact Moves.keeps (fun _ => rfl) rfl rfl rfl id
  | removeAllChanges startTime =>
    obtain ⟨-, rfl⟩ := removeAllChanges_cases hnext
    exact Moves.keeps (fun _ => rfl) (removeChanges_routeData _ _ _ _) rfl rfl False.elim
  | loadVersion currentTime =>
    obtain ⟨-, rfl⟩ := loadVersion_cases hnext
    have hmaps := loadVersion_maps m.route (some m.tables.routeVersion)
    refine Moves.keeps (fun _ => rfl) rfl hmaps.1 hmaps.2 ?_
    intro hloaded
    unfold Loaded at hloaded
    split at hloaded <;> rename_i hpc
    · split at hpc <;> cases hpc
    · split at hpc <;> cases hpc
    · exact hloaded.elim
  | loadRouteData =>
    obtain ⟨currentTime, -, rfl⟩ := loadRouteData_cases hnext
    exact Moves.loads (fun _ => rfl) rfl rfl rfl
  | swap =>
    obtain ⟨currentTime, ⟨hpc, rfl⟩ | ⟨hpc, rfl⟩⟩ := swap_cases hnext
    · exact Moves.swaps (by simp only [Loaded, hpc]) rfl rfl id
    · exact Moves.swaps (by simp only [Loaded, hpc]) rfl rfl id
  | loadChanges =>
    obtain ⟨-, rfl⟩ := loadChanges_cases hnext
    exact Moves.keeps (fun _ => rfl) rfl rfl rfl False.elim
  | publish =>
    obtain ⟨changes, rows, -, rfl⟩ := publish_cases hnext
    exact Moves.keeps (fun _ => rfl) rfl rfl rfl False.elim
  | removeChanges =>
    obtain ⟨-, rfl⟩ := removeChanges_cases hnext
    exact Moves.keeps (fun _ => rfl) (removeChanges_routeData _ _ _ _) rfl rfl False.elim
  | checkReload =>
    obtain ⟨currentTime, -, ⟨-, rfl⟩ | ⟨-, rfl⟩⟩ := checkReload_cases hnext
    · exact Moves.loads (fun _ => rfl) rfl rfl rfl
    · exact Moves.keeps (fun _ => rfl) rfl rfl rfl False.elim

end Monitor

end LarsSystem.Dns

namespace LarsSystem.Agent

open LarsSystem.MachineWord
open LarsSystem.Transition

/-! ## The system -/

/-- The database with the monitor, and the service with the agent. The rest is history: the
    contents that `RouteData` has had, the first one first, and for each module the hosts that
    `get_host` has answered with. -/
structure RouteReads where
  monitor : Dns.Monitor
  system : RouteSystem
  contents : List (List Dns.RouteRow)
  handed : Dns.Mod → List HostEntry

/-- The service answers a request or what it takes for one, pushes a module, or a step of the
    others. -/
inductive ReadsLabel where
  | monitor (label : Dns.MonitorLabel)
  | getRequest (result : SendResult)
  | getGarbled (req : GetRouteRequest) (result : SendResult)
  | push (mod : Dns.Mod) (result : SendResult)
  | agent (label : RouteLabel)

/-- The service sends a response. -/
def RouteLabel.Answers : RouteLabel → Prop
  | .getRequest _ _ => True
  | .getGarbled _ _ _ => True
  | .push _ _ => True
  | _ => False

instance (label : RouteLabel) : Decidable label.Answers := by
  cases label <;> unfold RouteLabel.Answers <;> infer_instance

namespace RouteSystem

/-- The host that a caller of `get_host` reads in the answer. -/
def handedHost (cfg : LbConfig) (s : RouteSystem) (i : Fin 3) (seq modid cmdid : BitVec 32)
    (accessCnt : Int) : Option HostEntry :=
  match (s.routeLbs i).getHost cfg modid cmdid ⟨seq, modid, cmdid, 0, none⟩ accessCnt s.sent with
  | Except.error _ => none
  | Except.ok result => if result.rsp.retcode = RET_SUCC then result.rsp.host else none

def handOut (cfg : LbConfig) (s : RouteSystem) (handed : Dns.Mod → List HostEntry) :
    RouteLabel → Dns.Mod → List HostEntry
  | .getHost i seq modid cmdid accessCnt =>
    Function.update handed (pack modid cmdid)
      (handed (pack modid cmdid) ++ (s.handedHost cfg i seq modid cmdid accessCnt).toList)
  | _ => handed

end RouteSystem

namespace RouteReads

def create (rows : List Dns.RouteRow) (version : Option Nat) : RouteReads :=
  { monitor := Dns.Monitor.create rows version
    system := RouteSystem.create
    contents := [rows]
    handed := fun _ => [] }

/-- The hosts of an answer, from the map that is in place. -/
def hostsFor (r : RouteReads) (req : GetRouteRequest) : List HostEntry :=
  (Dns.getRequest r.monitor.route.data req.modid req.cmdid).hosts

/-- One step; an answer or a push is made from the map that is in place. -/
def next (cfg : LbConfig) (r : RouteReads) : ReadsLabel → Option RouteReads
  | .monitor label =>
    (r.monitor.next label).map fun monitor =>
      { r with monitor := monitor, contents := Dns.written r.contents label }
  | .getRequest result =>
    match r.system.link.requests with
    | [] => none
    | .debris :: _ =>
      (r.system.next cfg (.getRequest [] result)).map fun system => { r with system := system }
    | .request pull :: _ =>
      (r.system.next cfg (.getRequest (r.hostsFor pull.req) result)).map fun system =>
        { r with system := system }
  | .getGarbled req result =>
    (r.system.next cfg (.getGarbled req (r.hostsFor req) result)).map fun system =>
      { r with system := system }
  | .push mod result =>
    (r.system.next cfg (.push (Dns.pushAnswer r.monitor.route.data mod) result)).map fun system =>
      { r with system := system }
  | .agent label =>
    if label.Answers then none
    else
      (r.system.next cfg label).map fun system =>
        { r with system := system, handed := r.system.handOut cfg r.handed label }

end RouteReads

/-! ## The maps of the agent -/

namespace RouteSystem

/-- Every object of the maps comes from one there was, with no host that it did not have, or
    has no host at all. -/
def Keeps (routes routes' : Fin 3 → RouteMap) : Prop :=
  ∀ i key entry', routes' i key = some entry' →
    (∃ entry, routes i key = some entry ∧ (entry.lb.Catalogued → entry'.lb.Catalogued ∧
      ∀ h, entry'.lb.Names h → entry.lb.Names h)) ∨
    entry'.lb.Catalogued ∧ ∀ h, ¬ entry'.lb.Names h

theorem keeps_refl (routes : Fin 3 → RouteMap) : Keeps routes routes :=
  fun _ _ entry hentry => Or.inl ⟨entry, hentry, fun catalogued => ⟨catalogued, fun _ => id⟩⟩

section Keeps

variable {cfg : LbConfig} {s s' : RouteSystem} {i : Fin 3} {key : BitVec 64}

theorem keeps_set {routes : Fin 3 → RouteMap} {entry entry' : RouteEntry}
    (hentry : routes i key = some entry)
    (hlb : entry.lb.Catalogued → entry'.lb.Catalogued ∧ ∀ h, entry'.lb.Names h → entry.lb.Names h) :
    Keeps routes (Function.update routes i ((routes i).set key entry')) := by
  intro j key' found hfound
  rw [set_apply] at hfound
  split at hfound
  · rename_i hsame
    obtain ⟨rfl, rfl⟩ := hsame
    cases hfound
    exact Or.inl ⟨entry, hentry, hlb⟩
  · exact keeps_refl routes j key' found hfound

theorem keeps_setRoutes (s : RouteSystem) (i : Fin 3) :
    Keeps s.routeLbs (s.setRoutes i (s.routeLbs i)).routeLbs := by
  simp only [setRoutes, Function.update_eq_self]
  exact keeps_refl _

/-- A choice brings no host into an object; a new one has none. -/
theorem getHostCb_keeps {seq modid cmdid : BitVec 32} {accessCnt : Int}
    (hget : s.getHostCb cfg i seq modid cmdid accessCnt = some s') :
    Keeps s.routeLbs s'.routeLbs ∧ s'.link = s.link := by
  unfold getHostCb at hget
  split at hget
  · cases hget
  · rename_i result hresult
    rcases RouteMap.getHost_cases hresult with
      ⟨entry, lb, hentry, chosen, hsent, hmap⟩ | ⟨-, hsent, hmap⟩
    · simp only [hsent, hmap, Option.some.injEq] at hget
      subst hget
      refine ⟨keeps_set hentry ?_, rfl⟩
      intro catalogued
      rcases chosen with rfl | ⟨ret, host, hchoice⟩
      · exact ⟨catalogued, fun _ => id⟩
      · exact ⟨catalogued.choice hchoice, fun h => (LoadBalance.names_choice hchoice h).mp⟩
    · simp only [hsent, hmap, Option.some.injEq] at hget
      subst hget
      refine ⟨?_, rfl⟩
      intro j key' found hfound
      simp only [setRoutes, set_apply] at hfound
      split at hfound
      · cases hfound
        exact Or.inr ⟨LoadBalance.catalogued_create modid cmdid accessCnt,
          LoadBalance.not_names_create modid cmdid accessCnt⟩
      · exact keeps_refl _ j key' found hfound

/-- What a caller reads is a host of the object. -/
theorem handedHost_names {seq modid cmdid : BitVec 32} {accessCnt : Int} {h : HostEntry}
    (hhanded : s.handedHost cfg i seq modid cmdid accessCnt = some h) :
    ∃ entry, s.routeLbs i (pack modid cmdid) = some entry ∧ entry.lb.Names h := by
  unfold handedHost at hhanded
  rcases hget : (s.routeLbs i).getHost cfg modid cmdid ⟨seq, modid, cmdid, 0, none⟩ accessCnt
    s.sent with fault | result
  · simp only [hget] at hhanded
    cases hhanded
  simp only [hget] at hhanded
  split at hhanded
  · rename_i hsucc
    unfold RouteMap.getHost at hget
    simp only at hget
    split at hget
    · rename_i entry hentry
      refine ⟨entry, hentry, ?_⟩
      split at hget
      · split at hget <;> cases hget
        cases hsucc
      · split at hget <;> cases hget
        rename_i ret host lb hchoice
        rcases (LoadBalance.choiceOneHost_cases hchoice).2 with hover | ⟨chosen, rfl, hnames⟩
        · cases hover.symm.trans hsucc
        · cases hhanded
          exact hnames
    · cases hget
      cases hsucc
  · cases hhanded

theorem reportHost_keeps {modid cmdid ip port retcode ts : BitVec 32}
    (hnext : s.next cfg (.reportHost i modid cmdid ip port retcode ts) = some s') :
    Keeps s.routeLbs s'.routeLbs ∧ s'.link = s.link := by
  simp only [next] at hnext
  split at hnext
  · cases hnext
  · rename_i map report hreport
    cases hnext
    rcases RouteMap.reportHost_cases hreport with rfl | ⟨entry, lb, hentry, hlb, rfl⟩
    · exact ⟨keeps_setRoutes s i, rfl⟩
    · refine ⟨keeps_set hentry ?_, rfl⟩
      intro catalogued
      have hreported := catalogued.report hlb
      exact ⟨hreported.1, fun h => (hreported.2 h).mp⟩

/-- **A response brings its own hosts**, into the object of its key in the map of its index, and
    leaves the other objects alone. -/
theorem deal_installs {rsp : GetRouteResponse} (hdeal : s.deal cfg rsp = some s') :
    ∃ i, routeIndex rsp.modid rsp.cmdid = some i ∧ s'.link = s.link ∧
      ∀ j key entry', s'.routeLbs j key = some entry' →
        (j = i ∧ key = pack rsp.modid rsp.cmdid ∧
          ∃ entry, s.routeLbs j key = some entry ∧ (entry.lb.Catalogued →
            entry'.lb.Catalogued ∧ ∀ h, entry'.lb.Names h → h ∈ rsp.hosts)) ∨
        ¬ (j = i ∧ key = pack rsp.modid rsp.cmdid) ∧ s.routeLbs j key = some entry' := by
  unfold deal at hdeal
  split at hdeal
  · cases hdeal
  rename_i i hindex
  split at hdeal
  · cases hdeal
  rename_i map hupdate
  cases hdeal
  refine ⟨i, hindex, rfl, ?_⟩
  intro j key entry' hentry'
  simp only [setRoutes] at hentry'
  by_cases hself : j = i ∧ key = pack rsp.modid rsp.cmdid
  · obtain ⟨rfl, rfl⟩ := hself
    refine Or.inl ⟨rfl, rfl, ?_⟩
    rw [Function.update_self] at hentry'
    rcases RouteMap.updateHost_cases hupdate with
      ⟨hnone, rfl⟩ | rfl | ⟨entry, lb, hentry, hlb, rfl⟩
    · rw [hnone] at hentry'
      cases hentry'
    · rw [RouteMap.erase, Function.update_self] at hentry'
      cases hentry'
    · rw [RouteMap.set, Function.update_self] at hentry'
      cases hentry'
      exact ⟨entry, hentry, fun catalogued => catalogued.update hlb⟩
  · refine Or.inr ⟨hself, ?_⟩
    by_cases hj : j = i
    · subst hj
      have hkey : key ≠ pack rsp.modid rsp.cmdid := fun hkey => hself ⟨rfl, hkey⟩
      rw [Function.update_self] at hentry'
      rcases RouteMap.updateHost_cases hupdate with ⟨-, rfl⟩ | rfl | ⟨entry, lb, -, -, rfl⟩
      · exact hentry'
      · rwa [RouteMap.erase, Function.update_of_ne hkey] at hentry'
      · rwa [RouteMap.set, Function.update_of_ne hkey] at hentry'
    · rwa [Function.update_of_ne hj] at hentry'

end Keeps

/-! ## The bounds of the responses -/

end RouteSystem

end LarsSystem.Agent
