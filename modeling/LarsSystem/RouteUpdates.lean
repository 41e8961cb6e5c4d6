import LarsSystem.ChangeNotices
import LarsSystem.PushComing
import LarsSystem.RequestOrder

/-!
# The DNS service as a whole

Writers of the database, the monitor thread, and the loops with the connections of
the agents, their requests and the push tasks. The parts are those of the modules
before; here they run together: a swap of the monitor changes the map that requests
and tasks read, its publish fills `pub_list`, and a connection opens, asks and
closes only between the tasks of its loop.

The last response that an open connection was sent for a module, as an answer or as
a push, tells what is in the table now, or the change is still on its way: it is to
be announced, its row is in `RouteChange`, or a task comes to push it.
-/

namespace LarsSystem.Dns

open LarsSystem.MachineWord
open LarsSystem.Transition

/-- The connection whose thread takes the step within a request or a close. -/
def OrderLabel.connection : OrderLabel → Option Fd
  | .getRequest fd _ _ => some fd
  | .subscribe fd => some fd
  | .getHosts fd => some fd
  | .sendMessage fd _ => some fd
  | .clearSubscribe fd _ => some fd
  | .unSubscribe fd => some fd
  | .deleteParam fd => some fd
  | _ => none

/-- `latest` is the response that each open connection was last sent for a module that it has
    been answered for, and `unannounced` has the modules that were changed after their last row of
    `RouteChange`. -/
structure RouteUpdates (L : Type) where
  monitor : Monitor
  push : PushState L
  clients : Fd → Option Client
  asking : Fd → Asking
  latest : Fd → Mod → Option Answer
  unannounced : Set Mod

inductive UpdatesLabel (L : Type) where
  | monitor (label : MonitorLabel)
  | openConn (l : L) (fd : Fd)
  | connection (l : L) (label : OrderLabel)
  | closeFd (l : L) (fd : Fd)
  | push (label : PushLabel L)

namespace RouteUpdates

variable {L : Type}

def create (rows : List RouteRow) (version : Option Nat) : RouteUpdates L :=
  { monitor := Monitor.create rows version
    push := PushState.create (Route.mapOf rows)
    clients := fun _ => none
    asking := fun _ => .idle
    latest := fun _ _ => none
    unannounced := ∅ }

/-- What the threads of the connections see. -/
def order (s : RouteUpdates L) : RequestOrder :=
  ⟨⟨s.push.lists, s.clients⟩, s.push.route, s.push.clock, s.asking, s.latest⟩

def setOrder (s : RouteUpdates L) (order : RequestOrder) : RouteUpdates L :=
  { s with
    push := { s.push with lists := order.service.lists }
    clients := order.service.clients
    asking := order.asking
    latest := order.latest }

/-- What a step of the monitor is for the loops: it publishes, or leaves them its map. -/
def toPush (s : RouteUpdates L) (label : MonitorLabel) (monitor : Monitor) : PushLabel L :=
  match label, s.monitor.pc with
  | .publish, .changesLoaded changes _ => .publish changes
  | _, _ => .newRoute monitor.route.data

/-- The connection's thread is between two callbacks. -/
def rests (s : RouteUpdates L) (fd : Fd) : Bool :=
  match s.asking fd, s.clients fd with
  | .idle, some ⟨_, .waiting⟩ => true
  | _, _ => false

/-- A task starts between two callbacks of its loop. -/
def MayRun (s : RouteUpdates L) : PushLabel L → Prop
  | .getListenFds l => ∀ fd ∈ s.push.listenFds l, s.rests fd
  | _ => True

instance (s : RouteUpdates L) : (label : PushLabel L) → Decidable (s.MayRun label)
  | .getListenFds _ => Finset.decidableDforallFinset
  | .subscribe .. | .unSubscribe .. | .openConn .. | .closeConn _ | .newRoute _ | .publish _
  | .sendTask | .makePublishMap .. | .getHosts _ | .sendMessage .. | .erase _ | .finish _ =>
    instDecidableTrue

/-- A push that is sent replaces the response that the connection had for the module. -/
def told (s : RouteUpdates L) (label : PushLabel L) : Fd → Mod → Option Answer :=
  match label with
  | .sendMessage l ret =>
    match s.push.task l with
    | .hostsRead fd mod hosts readAt _ =>
      let answer : Answer := ⟨PushState.response mod hosts, readAt⟩
      if ret = 0 ∧ (s.push.conns fd).isSome then
        Function.update s.latest fd (Function.update (s.latest fd) answer.mod
          ((s.latest fd answer.mod).map fun _ => answer))
      else s.latest
    | _ => s.latest
  | _ => s.latest

variable [DecidableEq L]

/-- One step; `none` where the threads are elsewhere. -/
def next (s : RouteUpdates L) : UpdatesLabel L → Option (RouteUpdates L)
  | .monitor label =>
    (s.monitor.next label).bind fun monitor =>
      (s.push.next (s.toPush label monitor)).map fun push =>
        { s with
          monitor := monitor
          push := push
          unannounced := s.monitor.announce s.unannounced label }
  | .openConn l fd =>
    if (s.push.task l).isIdle then
      (s.order.next (.createSubscribe fd)).bind fun order =>
        (s.push.next (.openConn l fd)).map fun push =>
          { s with push := push, clients := order.service.clients }
    else none
  | .connection l label =>
    match label.connection with
    | none => none
    | some fd =>
      if fd ∈ s.push.listenFds l ∧ (s.push.task l).isIdle then
        (s.order.next label).map s.setOrder
      else none
  | .closeFd l fd =>
    if fd ∈ s.push.listenFds l ∧ (s.push.task l).isIdle then
      (s.order.next (.closeFd fd)).bind fun order =>
        (s.push.next (.closeConn fd)).map fun push => { s.setOrder order with push := push }
    else none
  | .push label =>
    if label.Pushes ∧ s.MayRun label then
      (s.push.next label).map fun push => { s with push := push, latest := s.told label }
    else none

end RouteUpdates

/-! ## The steps of a connection's thread -/

/-- The close of the connection has not begun. -/
def Client.IsOpen (client : Client) : Prop :=
  client.phase = .waiting ∨ ∃ new, client.phase = .subscribing new

/-- What a step within a request or a close does to the bookkeeping. -/
theorem DnsService.thread_step {s s' : DnsService} {label : ServiceLabel} {fd : Fd}
    (hfd : label.fd = fd) (hnext : s.next label = some s')
    (hcreate : label ≠ .createSubscribe fd) (hclose : label ≠ .closeFd fd) :
    s'.lists.pubList = s.lists.pubList ∧
      ∃ client client', s.clients fd = some client ∧ s'.clients fd = some client' ∧
        (client'.IsOpen → client.IsOpen) := by
  subst hfd
  cases label with
  | createSubscribe fd => exact absurd rfl hcreate
  | getRequest fd mod =>
    rcases DnsService.getRequest_cases hnext with
      ⟨mods, hclient, ⟨-, rfl⟩ | ⟨-, rfl⟩⟩ | ⟨hclient, rfl⟩
    · exact ⟨rfl, _, _, hclient, hclient, id⟩
    · exact ⟨rfl, _, _, hclient, DnsService.setClient_self .., fun _ => Or.inl rfl⟩
    · exact ⟨rfl, _, _, hclient, hclient, id⟩
  | subscribe fd =>
    obtain ⟨param, mod, hclient, rfl⟩ := DnsService.subscribe_cases hnext
    exact ⟨rfl, _, _, hclient, DnsService.setClient_self .., fun _ => Or.inr ⟨mod, rfl⟩⟩
  | clearSubscribe fd order =>
    obtain ⟨mods, hclient, -, -, rfl⟩ := DnsService.clearSubscribe_cases hnext
    exact ⟨rfl, _, _, hclient, DnsService.setClient_self .., fun _ => Or.inl rfl⟩
  | unSubscribe fd =>
    obtain ⟨param, mod, rest, hclient, rfl⟩ := DnsService.unSubscribe_cases hnext
    refine ⟨s.lists.unSubscribe_pubList mod fd, _, _, hclient, DnsService.setClient_self .., ?_⟩
    rintro (hphase | ⟨new, hphase⟩) <;> cases hphase
  | deleteParam fd =>
    obtain ⟨param, hclient, rfl⟩ := DnsService.deleteParam_cases hnext
    refine ⟨rfl, _, _, hclient, DnsService.setClient_self .., ?_⟩
    rintro (hphase | ⟨new, hphase⟩) <;> cases hphase
  | closeFd fd => exact absurd rfl hclose

namespace RequestOrder

/-- The answer was made just now. -/
def Fresh (s : RequestOrder) (answer : Answer) : Prop :=
  answer.readAt = s.swaps ∧ answer.rsp.hosts = (s.route answer.mod).map HostEntry.ofKey

/-- The answer is the one that was sent last for its module, or is about to be sent. -/
def Told (s : RequestOrder) (fd : Fd) (answer : Answer) : Prop :=
  s.latest fd answer.mod = some answer ∨ s.asking fd = .answering answer

/-- What a step within a request or a close of the connection does. -/
structure ThreadStep (s s' : RequestOrder) (fd : Fd) : Prop where
  route : s'.route = s.route
  swaps : s'.swaps = s.swaps
  pubList : s'.service.lists.pubList = s.service.lists.pubList
  clients : ∀ fd', fd' ≠ fd → s'.service.clients fd' = s.service.clients fd'
  asking : ∀ fd', fd' ≠ fd → s'.asking fd' = s.asking fd'
  latest : ∀ fd', fd' ≠ fd → s'.latest fd' = s.latest fd'
  opened : ∃ client client', s.service.clients fd = some client ∧
    s'.service.clients fd = some client' ∧ (client'.IsOpen → client.IsOpen)
  answers : ∀ answer, s'.Told fd answer → s.Told fd answer ∨ s.Fresh answer
  named : ∀ mod answer, s'.latest fd mod = some answer →
    s.latest fd mod = some answer ∨ answer.mod = mod

section Steps

variable {s s' : RequestOrder} {fd : Fd}

/-- A step of the bookkeeping with what the request is about to do next, which is no answer. -/
theorem threadStep_service {service : DnsService} {label : ServiceLabel}
    (hfd : label.fd = fd) (hnext : s.service.next label = some service)
    (hcreate : label ≠ .createSubscribe fd) (hclose : label ≠ .closeFd fd) {asking : Fd → Asking}
    (hasking : ∀ fd', fd' ≠ fd → asking fd' = s.asking fd')
    (hself : ∀ answer, asking fd = .answering answer → s.asking fd = .answering answer) :
    ThreadStep s { s with service := service, asking := asking } fd := by
  obtain ⟨hpubList, hopened⟩ := DnsService.thread_step hfd hnext hcreate hclose
  refine ⟨rfl, rfl, hpubList, ?_, hasking, fun _ _ => rfl, hopened, ?_, fun _ _ => Or.inl⟩
  · intro fd' hne
    exact DnsService.next_clients_of_ne hnext (hfd ▸ hne)
  · rintro answer (hlatest | hanswering)
    · exact Or.inl (Or.inl hlatest)
    · exact Or.inl (Or.inr (hself answer hanswering))

theorem threadStep_getRequest {modid cmdid : BitVec 32}
    (hnext : s.next (.getRequest fd modid cmdid) = some s') : ThreadStep s s' fd := by
  simp only [RequestOrder.next] at hnext
  split at hnext
  · obtain ⟨service, hservice, rfl⟩ := Option.map_eq_some_iff.mp hnext
    refine threadStep_service rfl hservice (by simp) (by simp)
      (fun fd' hne => Function.update_of_ne hne ..) ?_
    intro answer hanswering
    cases (Function.update_self ..).symm.trans hanswering
  · cases hnext

theorem threadStep_subscribe (hnext : s.next (.subscribe fd) = some s') :
    ThreadStep s s' fd := by
  obtain ⟨service, hservice, rfl⟩ := Option.map_eq_some_iff.mp hnext
  exact threadStep_service rfl hservice (by simp) (by simp) (fun _ _ => rfl) fun _ => id

/-- The answer that is made is from the map that is in place. -/
theorem threadStep_getHosts (hnext : s.next (.getHosts fd) = some s') : ThreadStep s s' fd := by
  simp only [RequestOrder.next] at hnext
  split at hnext
  · rename_i modid cmdid param hasking hclient
    cases hnext
    refine ⟨rfl, rfl, rfl, fun _ _ => rfl, fun fd' hne => Function.update_of_ne hne ..,
      fun _ _ => rfl, ⟨_, _, hclient, hclient, id⟩, ?_, fun _ _ => Or.inl⟩
    rintro answer (hlatest | hanswering)
    · exact Or.inl (Or.inl hlatest)
    · simp only [Function.update_self] at hanswering
      cases hanswering
      exact Or.inr ⟨rfl, rfl⟩
  · cases hnext

/-- What was sent last after an answer: the answer for its module, or what was before. -/
theorem latest_sent {latest : Fd → Mod → Option Answer} {answer later : Answer} {ret : Int}
    {mod : Mod} (hlater : (if ret = 0 then Function.update latest fd
      (Function.update (latest fd) answer.mod (some answer)) else latest) fd mod = some later) :
    latest fd mod = some later ∨ later = answer ∧ answer.mod = mod := by
  split at hlater
  · rw [Function.update_self] at hlater
    by_cases hmod : mod = answer.mod
    · rw [hmod, Function.update_self] at hlater
      cases hlater
      exact Or.inr ⟨rfl, hmod.symm⟩
    · rw [Function.update_of_ne hmod] at hlater
      exact Or.inl hlater
  · exact Or.inl hlater

/-- The answer that is sent was about to be sent. -/
theorem threadStep_sendMessage (hinv : OrderInv s) {ret : Int}
    (hnext : s.next (.sendMessage fd ret) = some s') : ThreadStep s s' fd := by
  simp only [RequestOrder.next] at hnext
  split at hnext
  · rename_i answer hasking
    cases hnext
    obtain ⟨client, hclient⟩ : ∃ client, s.service.clients fd = some client := by
      cases hclient : s.service.clients fd with
      | none => cases (hinv.closed fd hclient).1.symm.trans hasking
      | some client => exact ⟨client, rfl⟩
    refine ⟨rfl, rfl, rfl, fun _ _ => rfl, fun fd' hne => Function.update_of_ne hne .., ?_,
      ⟨_, _, hclient, hclient, id⟩, ?_, ?_⟩
    · intro fd' hne
      change (if ret = 0 then _ else s.latest) fd' = _
      split
      · exact Function.update_of_ne hne ..
      · rfl
    · rintro later (hlatest | hanswering)
      · rcases latest_sent hlatest with hold | ⟨rfl, -⟩
        · exact Or.inl (Or.inl hold)
        · exact Or.inl (Or.inr hasking)
      · simp only [Function.update_self] at hanswering
        cases hanswering
    · intro mod later hlater
      rcases latest_sent hlater with hold | ⟨rfl, hmod⟩
      · exact Or.inl hold
      · exact Or.inr hmod
  · cases hnext

theorem threadStep_clearSubscribe {order : List Mod}
    (hnext : s.next (.clearSubscribe fd order) = some s') : ThreadStep s s' fd := by
  simp only [RequestOrder.next] at hnext
  split at hnext
  · obtain ⟨service, hservice, rfl⟩ := Option.map_eq_some_iff.mp hnext
    exact threadStep_service rfl hservice (by simp) (by simp) (fun _ _ => rfl) fun _ => id
  · cases hnext

theorem threadStep_of_next {label : OrderLabel} (hfd : label.connection = some fd)
    (hinv : OrderInv s) (hnext : s.next label = some s') : ThreadStep s s' fd := by
  cases label with
  | getRequest fd' modid cmdid =>
    cases hfd
    exact threadStep_getRequest hnext
  | subscribe fd' =>
    cases hfd
    exact threadStep_subscribe hnext
  | getHosts fd' =>
    cases hfd
    exact threadStep_getHosts hnext
  | sendMessage fd' ret =>
    cases hfd
    exact threadStep_sendMessage hinv hnext
  | clearSubscribe fd' order =>
    cases hfd
    exact threadStep_clearSubscribe hnext
  | unSubscribe fd' =>
    cases hfd
    obtain ⟨service, hservice, rfl⟩ := Option.map_eq_some_iff.mp hnext
    exact threadStep_service rfl hservice (by simp) (by simp) (fun _ _ => rfl) fun _ => id
  | deleteParam fd' =>
    cases hfd
    obtain ⟨service, hservice, rfl⟩ := Option.map_eq_some_iff.mp hnext
    exact threadStep_service rfl hservice (by simp) (by simp) (fun _ _ => rfl) fun _ => id
  | createSubscribe fd' => cases hfd
  | closeFd fd' => cases hfd
  | swap route => cases hfd
  | publish changeMods => cases hfd
  | erase fd' => cases hfd

end Steps

end RequestOrder

end LarsSystem.Dns
