import LarsSystem.ClientSubscription
import LarsSystem.RouteAnswer

/-!
# Subscribe, then read, while the monitor swaps, then publishes

A request subscribes first and reads the hosts afterwards; a round of the monitor
swaps the map first and publishes afterwards. The steps of any number of requests
fall between those of the monitor as they please. Whoever has read the old map
has subscribed before the swap, so the publish finds it; whoever subscribes after
the publish reads the new map. A connection that subscribed long ago skips the
subscription and is covered by the old one.

The state counts the swaps, and remembers with each answer how many there were
when its hosts were read, and for each open connection the answer it was last
sent for each module.
-/

namespace LarsSystem.Dns

open LarsSystem.MachineWord
open LarsSystem.Transition

/-- A response, and the number of swaps before its hosts were read. -/
structure Answer where
  rsp : GetRouteResponse
  readAt : Nat
deriving DecidableEq, Repr

def Answer.mod (answer : Answer) : Mod := pack answer.rsp.modid answer.rsp.cmdid

/-- How far the `get_request` of a connection is: it has the hosts to read, or to send. -/
inductive Asking where
  | idle
  | reading (modid cmdid : CInt)
  | answering (answer : Answer)
deriving DecidableEq, Repr

structure RequestOrder where
  service : DnsService
  route : RouteMap
  swaps : Nat
  asking : Fd → Asking
  latest : Fd → Mod → Option Answer

inductive OrderLabel where
  | createSubscribe (fd : Fd)
  | getRequest (fd : Fd) (modid cmdid : CInt)
  | subscribe (fd : Fd)
  | getHosts (fd : Fd)
  | sendMessage (fd : Fd) (ret : Int)
  | clearSubscribe (fd : Fd) (order : List Mod)
  | unSubscribe (fd : Fd)
  | deleteParam (fd : Fd)
  | closeFd (fd : Fd)
  | swap (route : RouteMap)
  | publish (changeMods : List Mod)
  | erase (fd : Fd)

namespace RequestOrder

def create (route : RouteMap) : RequestOrder :=
  { service := DnsService.create
    route := route
    swaps := 0
    asking := fun _ => .idle
    latest := fun _ _ => none }

/-- A step of the bookkeeping. -/
def serviceStep (s : RequestOrder) (label : ServiceLabel) : Option RequestOrder :=
  (s.service.next label).map fun service => { s with service := service }

/-- One step; `none` where the connection's thread is elsewhere. The hook at the end runs
    between two requests. -/
def next (s : RequestOrder) : OrderLabel → Option RequestOrder
  | .createSubscribe fd => s.serviceStep (.createSubscribe fd)
  | .getRequest fd modid cmdid =>
    if s.asking fd = .idle then
      (s.service.next (.getRequest fd (pack modid cmdid))).map fun service =>
        { s with
          service := service
          asking := Function.update s.asking fd (.reading modid cmdid) }
    else none
  | .subscribe fd => s.serviceStep (.subscribe fd)
  | .getHosts fd =>
    match s.asking fd, s.service.clients fd with
    | .reading modid cmdid, some ⟨_, .waiting⟩ =>
      some { s with
        asking := Function.update s.asking fd
          (.answering ⟨getRequest s.route modid cmdid, s.swaps⟩) }
    | _, _ => none
  | .sendMessage fd ret =>
    match s.asking fd with
    | .answering answer =>
      some { s with
        asking := Function.update s.asking fd .idle
        latest :=
          if ret = 0 then
            Function.update s.latest fd
              (Function.update (s.latest fd) answer.mod (some answer))
          else s.latest }
    | _ => none
  | .clearSubscribe fd order =>
    if s.asking fd = .idle then s.serviceStep (.clearSubscribe fd order) else none
  | .unSubscribe fd => s.serviceStep (.unSubscribe fd)
  | .deleteParam fd => s.serviceStep (.deleteParam fd)
  | .closeFd fd =>
    (s.service.next (.closeFd fd)).map fun service =>
      { s with service := service, latest := Function.update s.latest fd fun _ => none }
  | .swap route => some { s with route := route, swaps := s.swaps + 1 }
  | .publish changeMods =>
    some { s with
      service := { s.service with lists := s.service.lists.publish changeMods } }
  | .erase fd =>
    some { s with service := { s.service with lists := s.service.lists.erase fd } }

/-! ## What is promised -/

/-- The connection on the descriptor is open and its close has not begun. -/
def Open (s : RequestOrder) (fd : Fd) : Prop :=
  ∃ client, s.service.clients fd = some client ∧
    (client.phase = .waiting ∨ ∃ new, client.phase = .subscribing new)

/-- The connection was last sent this answer for the module, or is about to be sent it. -/
def HasAnswer (s : RequestOrder) (fd : Fd) (mod : Mod) (answer : Answer) : Prop :=
  s.latest fd mod = some answer ∨ s.asking fd = .answering answer ∧ answer.mod = mod

/-- **What a publish promises**: a push is scheduled for every open connection that has an answer
    for a changed module from before the last swap. -/
def Scheduled (s : RequestOrder) (changeMods : List Mod) : Prop :=
  ∀ mod ∈ changeMods, ∀ fd answer, s.Open fd → s.HasAnswer fd mod answer →
    answer.readAt < s.swaps → (fd, mod) ∈ s.service.lists.pubList

/-! ## The invariant -/

/-- The module is in the connection's own set. -/
def Keeps (client : Client) (mod : Mod) : Prop :=
  ∃ mods, client.param = some mods ∧ mod ∈ mods

/-- The request of the connection, by how far the subscription is. -/
def InStep (client : Client) : Asking → Prop
  | .idle => ∀ mod, client.phase ≠ .subscribing mod
  | .reading modid cmdid =>
    client.phase = .waiting ∧ Keeps client (pack modid cmdid) ∨
      client.phase = .subscribing (pack modid cmdid)
  | .answering answer => client.phase = .waiting ∧ Keeps client answer.mod

/-- A module with an answer is subscribed until the hook at the end has run. -/
structure ThreadInv (client : Client) (asking : Asking) (latest : Mod → Option Answer) : Prop where
  inStep : InStep client asking
  answered : ∀ mod answer, latest mod = some answer →
    client.phase = .cleared ∨ Keeps client mod ∧ client.phase ≠ .subscribing mod

structure OrderInv (s : RequestOrder) : Prop where
  service : DnsService.ServiceInv s.service
  threads : ∀ fd client, s.service.clients fd = some client →
    ThreadInv client (s.asking fd) (s.latest fd)
  closed : ∀ fd, s.service.clients fd = none → s.asking fd = .idle ∧ ∀ mod, s.latest fd mod = none

theorem orderInv_create (route : RouteMap) : OrderInv (create route) := by
  refine ⟨DnsService.serviceInv_create, ?_, fun _ _ => ⟨rfl, fun _ => rfl⟩⟩
  intro fd client hclient
  cases hclient

/-- A thread that closes has no request. -/
theorem InStep.idle {client : Client} {asking : Asking} (hstep : InStep client asking)
    (hphase : client.phase ≠ .waiting) (hsub : ∀ mod, client.phase ≠ .subscribing mod) :
    asking = .idle := by
  cases asking with
  | idle => rfl
  | reading modid cmdid =>
    rcases hstep with ⟨hwaiting, -⟩ | hsubscribing
    · exact absurd hwaiting hphase
    · exact absurd hsubscribing (hsub _)
  | answering answer => exact absurd hstep.1 hphase

/-- What the connection keeps and is not about to subscribe, `sub_list` has for it. -/
theorem listed_of_keeps {client : Client} {mod : Mod} (hkeeps : Keeps client mod)
    (hopen : client.phase = .waiting ∨ ∃ new, client.phase = .subscribing new)
    (hother : client.phase ≠ .subscribing mod) : DnsService.Listed client mod := by
  obtain ⟨param, phase⟩ := client
  obtain ⟨mods, rfl, hmem⟩ := hkeeps
  rcases hopen with rfl | ⟨new, rfl⟩
  · exact hmem
  · refine ⟨hmem, ?_⟩
    rintro rfl
    exact hother rfl

section Steps

variable {s s' : RequestOrder} {fd : Fd}

/-- A step of one connection: the others keep what they have. -/
theorem OrderInv.step (hinv : OrderInv s) (fd : Fd) (hservice : DnsService.ServiceInv s'.service)
    (hclients : ∀ fd', fd' ≠ fd → s'.service.clients fd' = s.service.clients fd')
    (hasking : ∀ fd', fd' ≠ fd → s'.asking fd' = s.asking fd')
    (hlatest : ∀ fd', fd' ≠ fd → s'.latest fd' = s.latest fd')
    (hself : (∃ client, s'.service.clients fd = some client ∧
        ThreadInv client (s'.asking fd) (s'.latest fd)) ∨
      s'.service.clients fd = none ∧ s'.asking fd = .idle ∧ ∀ mod, s'.latest fd mod = none) :
    OrderInv s' := by
  refine ⟨hservice, ?_, ?_⟩
  · intro fd' client hclient
    by_cases hfd : fd' = fd
    · subst hfd
      rcases hself with ⟨client', hclient', hthread⟩ | ⟨hnone, -⟩
      · cases hclient'.symm.trans hclient
        exact hthread
      · cases hnone.symm.trans hclient
    · rw [hasking fd' hfd, hlatest fd' hfd]
      exact hinv.threads fd' client (hclients fd' hfd ▸ hclient)
  · intro fd' hclient
    by_cases hfd : fd' = fd
    · subst hfd
      rcases hself with ⟨client', hclient', -⟩ | ⟨-, hidle⟩
      · cases hclient'.symm.trans hclient
      · exact hidle
    · rw [hasking fd' hfd, hlatest fd' hfd]
      exact hinv.closed fd' (hclients fd' hfd ▸ hclient)

/-- A step of the bookkeeping after which the connection is still open. -/
theorem OrderInv.serviceStep (hinv : OrderInv s) {label : ServiceLabel}
    (hstep : s.serviceStep label = some s')
    (hself : ∀ service, s.service.next label = some service →
      ∃ client, service.clients label.fd = some client ∧
        ThreadInv client (s.asking label.fd) (s.latest label.fd)) : OrderInv s' := by
  obtain ⟨service, hnext, rfl⟩ := Option.map_eq_some_iff.mp hstep
  exact hinv.step label.fd (hinv.service.next hnext)
    (fun fd' hfd => DnsService.next_clients_of_ne hnext hfd) (fun _ _ => rfl) (fun _ _ => rfl)
    (Or.inl (hself service hnext))

theorem OrderInv.createSubscribe (hinv : OrderInv s)
    (hstep : s.serviceStep (.createSubscribe fd) = some s') : OrderInv s' := by
  apply hinv.serviceStep hstep
  intro service hnext
  obtain ⟨hnone, rfl⟩ := DnsService.createSubscribe_cases hnext
  obtain ⟨hidle, hlatest⟩ := hinv.closed fd hnone
  refine ⟨_, DnsService.setClient_self .., ?_, ?_⟩
  · change InStep _ (s.asking fd)
    rw [hidle]
    intro mod hphase
    cases hphase
  · intro mod answer hanswer
    cases (hlatest mod).symm.trans hanswer

/-- What is answered stays so where the set only grows by a module without an answer. -/
theorem ThreadInv.subscribing {mods : Finset Mod} {asking : Asking}
    {latest : Mod → Option Answer} {new : Mod}
    (hthread : ThreadInv ⟨some mods, .waiting⟩ asking latest) (hnew : new ∉ mods) :
    ∀ mod answer, latest mod = some answer →
      Keeps ⟨some (insert new mods), .subscribing new⟩ mod ∧
        ClientPhase.subscribing new ≠ .subscribing mod := by
  intro mod answer hanswer
  rcases hthread.answered mod answer hanswer with hcleared | ⟨⟨old, hparam, hmem⟩, -⟩
  · cases hcleared
  · cases hparam
    refine ⟨⟨_, rfl, Finset.mem_insert_of_mem hmem⟩, ?_⟩
    intro hphase
    cases hphase
    exact hnew hmem

theorem OrderInv.getRequest (hinv : OrderInv s) {modid cmdid : CInt} {service : DnsService}
    (hnext : s.service.next (.getRequest fd (pack modid cmdid)) = some service) :
    OrderInv { s with
      service := service
      asking := Function.update s.asking fd (.reading modid cmdid) } := by
  refine hinv.step fd (hinv.service.next hnext)
    (fun fd' hfd => DnsService.next_clients_of_ne hnext hfd)
    (fun fd' hfd => Function.update_of_ne hfd ..) (fun _ _ => rfl) (Or.inl ?_)
  simp only [Function.update_self]
  rcases DnsService.getRequest_cases hnext with
    ⟨mods, hclient, ⟨hmem, rfl⟩ | ⟨hnew, rfl⟩⟩ | ⟨hclient, -⟩
  · -- subscribed by an earlier request
    exact ⟨_, hclient, Or.inl ⟨rfl, mods, rfl, hmem⟩, (hinv.threads fd _ hclient).answered⟩
  · refine ⟨_, DnsService.setClient_self .., Or.inr rfl, ?_⟩
    intro mod answer hanswer
    exact Or.inr ((hinv.threads fd _ hclient).subscribing hnew mod answer hanswer)
  · exact (hinv.service.wellFormed fd _ hclient).elim

theorem OrderInv.subscribe (hinv : OrderInv s)
    (hstep : s.serviceStep (.subscribe fd) = some s') : OrderInv s' := by
  apply hinv.serviceStep hstep
  intro service hnext
  obtain ⟨param, mod, hclient, rfl⟩ := DnsService.subscribe_cases hnext
  obtain ⟨hinStep, hanswered⟩ := hinv.threads fd _ hclient
  have hwell := hinv.service.wellFormed fd _ hclient
  obtain _ | mods := param
  · exact hwell.elim
  refine ⟨_, DnsService.setClient_self .., ?_, ?_⟩
  · change InStep _ (s.asking fd)
    cases hasking : s.asking fd with
    | idle =>
      rw [hasking] at hinStep
      exact absurd rfl (hinStep mod)
    | reading modid cmdid =>
      rw [hasking] at hinStep
      rcases hinStep with ⟨hphase, -⟩ | hphase
      · cases hphase
      · cases hphase
        exact Or.inl ⟨rfl, mods, rfl, hwell⟩
    | answering answer =>
      rw [hasking] at hinStep
      cases hinStep.1
  · intro mod' answer hanswer
    rcases hanswered mod' answer hanswer with hcleared | ⟨hkeeps, -⟩
    · cases hcleared
    · refine Or.inr ⟨hkeeps, ?_⟩
      intro hphase
      cases hphase

/-- The hosts are read after the subscription. -/
theorem OrderInv.getHosts (hinv : OrderInv s) {modid cmdid : CInt} {param : Option (Finset Mod)}
    (hasking : s.asking fd = .reading modid cmdid)
    (hclient : s.service.clients fd = some ⟨param, .waiting⟩) (readAt : Nat) :
    OrderInv { s with
      asking := Function.update s.asking fd
        (.answering ⟨Dns.getRequest s.route modid cmdid, readAt⟩) } := by
  obtain ⟨hinStep, hanswered⟩ := hinv.threads fd _ hclient
  rw [hasking] at hinStep
  have hkeeps : Keeps ⟨param, .waiting⟩ (pack modid cmdid) := by
    rcases hinStep with ⟨-, hkeeps⟩ | hphase
    · exact hkeeps
    · cases hphase
  refine hinv.step fd hinv.service (fun _ _ => rfl)
    (fun fd' hfd => Function.update_of_ne hfd ..) (fun _ _ => rfl) (Or.inl ?_)
  simp only [Function.update_self]
  exact ⟨_, hclient, ⟨rfl, hkeeps⟩, hanswered⟩

theorem OrderInv.sendMessage (hinv : OrderInv s) {answer : Answer}
    (hasking : s.asking fd = .answering answer) (ret : Int) :
    OrderInv { s with
      asking := Function.update s.asking fd .idle
      latest :=
        if ret = 0 then
          Function.update s.latest fd (Function.update (s.latest fd) answer.mod (some answer))
        else s.latest } := by
  cases hclient : s.service.clients fd with
  | none =>
    cases (hinv.closed fd hclient).1.symm.trans hasking
  | some client =>
    obtain ⟨hinStep, hanswered⟩ := hinv.threads fd _ hclient
    rw [hasking] at hinStep
    obtain ⟨hphase, hkeeps⟩ := hinStep
    have hnot : ∀ mod, client.phase ≠ .subscribing mod := by
      intro mod hsubscribing
      cases hphase.symm.trans hsubscribing
    refine hinv.step fd hinv.service (fun _ _ => rfl)
      (fun fd' hfd => Function.update_of_ne hfd ..) ?_ (Or.inl ?_)
    · intro fd' hfd
      split
      · exact Function.update_of_ne hfd ..
      · rfl
    · simp only [Function.update_self]
      refine ⟨client, hclient, hnot, ?_⟩
      intro mod later hlater
      split at hlater
      · rw [Function.update_self] at hlater
        by_cases hmod : mod = answer.mod
        · exact Or.inr ⟨hmod ▸ hkeeps, hnot mod⟩
        · rw [Function.update_of_ne hmod] at hlater
          exact hanswered mod later hlater
      · exact hanswered mod later hlater

/-- A step of the close hook: an answered module stays in the set until that is deleted. -/
theorem ThreadInv.closing {client client' : Client} {asking : Asking}
    {latest : Mod → Option Answer} (hthread : ThreadInv client asking latest)
    (hidle : asking = .idle) (hnot : ∀ mod, client'.phase ≠ .subscribing mod)
    (hparam : client'.phase = .cleared ∨
      client'.param = client.param ∧ client.phase ≠ .cleared) :
    ThreadInv client' asking latest := by
  refine ⟨hidle ▸ hnot, ?_⟩
  intro mod answer hanswer
  rcases hparam with hcleared | ⟨hparam, hopen⟩
  · exact Or.inl hcleared
  · rcases hthread.answered mod answer hanswer with hcleared | ⟨⟨mods, hmods, hmem⟩, -⟩
    · exact absurd hcleared hopen
    · exact Or.inr ⟨⟨mods, hparam.trans hmods, hmem⟩, hnot mod⟩

theorem OrderInv.clearSubscribe (hinv : OrderInv s) {order : List Mod}
    (hidle : s.asking fd = .idle)
    (hstep : s.serviceStep (.clearSubscribe fd order) = some s') : OrderInv s' := by
  apply hinv.serviceStep hstep
  intro service hnext
  obtain ⟨mods, hclient, -, -, rfl⟩ := DnsService.clearSubscribe_cases hnext
  refine ⟨_, DnsService.setClient_self .., ?_⟩
  apply (hinv.threads fd _ hclient).closing hidle
  · intro mod hphase
    cases hphase
  · refine Or.inr ⟨rfl, ?_⟩
    intro hphase
    cases hphase

theorem OrderInv.unSubscribe (hinv : OrderInv s)
    (hstep : s.serviceStep (.unSubscribe fd) = some s') : OrderInv s' := by
  apply hinv.serviceStep hstep
  intro service hnext
  obtain ⟨param, mod, rest, hclient, rfl⟩ := DnsService.unSubscribe_cases hnext
  have hthread := hinv.threads fd _ hclient
  refine ⟨_, DnsService.setClient_self .., ?_⟩
  apply hthread.closing
  · exact hthread.inStep.idle (fun hphase => by cases hphase) (fun mod hphase => by cases hphase)
  · intro mod hphase
    cases hphase
  · refine Or.inr ⟨rfl, ?_⟩
    intro hphase
    cases hphase

theorem OrderInv.deleteParam (hinv : OrderInv s)
    (hstep : s.serviceStep (.deleteParam fd) = some s') : OrderInv s' := by
  apply hinv.serviceStep hstep
  intro service hnext
  obtain ⟨param, hclient, rfl⟩ := DnsService.deleteParam_cases hnext
  have hthread := hinv.threads fd _ hclient
  refine ⟨_, DnsService.setClient_self .., ?_⟩
  apply hthread.closing
  · exact hthread.inStep.idle (fun hphase => by cases hphase) (fun mod hphase => by cases hphase)
  · intro mod hphase
    cases hphase
  · exact Or.inl rfl

theorem OrderInv.closeFd (hinv : OrderInv s) {service : DnsService}
    (hnext : s.service.next (.closeFd fd) = some service) :
    OrderInv { s with
      service := service
      latest := Function.update s.latest fd fun _ => none } := by
  have hservice := hinv.service.next hnext
  have hothers : ∀ fd', fd' ≠ fd → service.clients fd' = s.service.clients fd' :=
    fun fd' hfd => DnsService.next_clients_of_ne hnext hfd
  obtain ⟨param, hclient, rfl⟩ := DnsService.closeFd_cases hnext
  have hthread := hinv.threads fd _ hclient
  refine hinv.step fd hservice hothers (fun _ _ => rfl)
    (fun fd' hfd => Function.update_of_ne hfd ..) (Or.inr ?_)
  simp only [Function.update_self]
  exact ⟨trivial, hthread.inStep.idle (fun hphase => by cases hphase)
    (fun mod hphase => by cases hphase), fun _ => trivial⟩

/-- What the monitor and the push tasks do to `pub_list` and the map. -/
theorem OrderInv.monitor (hinv : OrderInv s) (route : RouteMap) (swaps : Nat)
    (pubList : Finset (Fd × Mod)) :
    OrderInv { s with
      service := { s.service with lists := { s.service.lists with pubList := pubList } }
      route := route
      swaps := swaps } :=
  ⟨⟨hinv.service.listed, hinv.service.wellFormed, hinv.service.nonempty⟩, hinv.threads, hinv.closed⟩

/-- One step keeps the invariant. -/
theorem OrderInv.next (hinv : OrderInv s) {label : OrderLabel} (hnext : s.next label = some s') :
    OrderInv s' := by
  cases label with
  | createSubscribe fd => exact hinv.createSubscribe hnext
  | getRequest fd modid cmdid =>
    simp only [RequestOrder.next] at hnext
    split at hnext
    · obtain ⟨service, hservice, rfl⟩ := Option.map_eq_some_iff.mp hnext
      exact hinv.getRequest hservice
    · cases hnext
  | subscribe fd => exact hinv.subscribe hnext
  | getHosts fd =>
    simp only [RequestOrder.next] at hnext
    split at hnext
    · rename_i hasking hclient
      cases hnext
      exact hinv.getHosts hasking hclient s.swaps
    · cases hnext
  | sendMessage fd ret =>
    simp only [RequestOrder.next] at hnext
    split at hnext
    · rename_i answer hasking
      cases hnext
      exact hinv.sendMessage hasking ret
    · cases hnext
  | clearSubscribe fd order =>
    simp only [RequestOrder.next] at hnext
    split at hnext
    · rename_i hidle
      exact hinv.clearSubscribe hidle hnext
    · cases hnext
  | unSubscribe fd => exact hinv.unSubscribe hnext
  | deleteParam fd => exact hinv.deleteParam hnext
  | closeFd fd =>
    obtain ⟨service, hservice, rfl⟩ := Option.map_eq_some_iff.mp hnext
    exact hinv.closeFd hservice
  | swap route =>
    cases hnext
    exact hinv.monitor route (s.swaps + 1) s.service.lists.pubList
  | publish changeMods =>
    cases hnext
    exact hinv.monitor s.route s.swaps (s.service.lists.publish changeMods).pubList
  | erase fd =>
    cases hnext
    exact hinv.monitor s.route s.swaps (s.service.lists.erase fd).pubList

end Steps

/-! ## Every run -/

/-- Whoever has an answer for a module is filed under it. -/
theorem OrderInv.has {s : RequestOrder} (hinv : OrderInv s) {fd : Fd} {mod : Mod} {answer : Answer}
    (hopen : s.Open fd) (hanswer : s.HasAnswer fd mod answer) : s.service.lists.Has mod fd := by
  obtain ⟨client, hclient, hphase⟩ := hopen
  obtain ⟨hinStep, hanswered⟩ := hinv.threads fd client hclient
  rw [hinv.service.has_iff hclient mod]
  rcases hanswer with hlatest | ⟨hasking, rfl⟩
  · rcases hanswered mod answer hlatest with hcleared | ⟨hkeeps, hother⟩
    · rcases hphase with hwaiting | ⟨new, hsubscribing⟩
      · cases hcleared.symm.trans hwaiting
      · cases hcleared.symm.trans hsubscribing
    · exact listed_of_keeps hkeeps hphase hother
  · rw [hasking] at hinStep
    apply listed_of_keeps hinStep.2 hphase
    intro hsubscribing
    cases hinStep.1.symm.trans hsubscribing

/-- **Subscribe-then-read misses no change**: whatever the order of the steps, a publish schedules
    a push to every open connection whose answer for a changed module is from before the swap. -/
theorem publish_schedules {route : RouteMap} {labels : List OrderLabel} {s s' : RequestOrder}
    {changeMods : List Mod} (hrun : Run (ofOption next) (create route) labels s)
    (hpublish : s.next (.publish changeMods) = some s') : s'.Scheduled changeMods := by
  have hinv : OrderInv s := by
    apply Run.invariant _ hrun (orderInv_create route)
    intro t label t' ht hnext
    exact ht.next hnext
  have hinv' := hinv.next hpublish
  cases hpublish
  intro mod hmod fd answer hopen hanswer _
  exact SubscribeList.mem_publish.mpr (Or.inr ⟨hmod, hinv'.has hopen hanswer⟩)

/-- Descriptor 9 read the map before the swap, 10 after it and before the publish. -/
theorem publish_schedules_between :
    ∃ s s', Run (ofOption next) (create fun _ => [5])
        [.createSubscribe 9, .createSubscribe 10, .getRequest 9 1 2, .subscribe 9, .getHosts 9,
          .getRequest 10 1 2, .swap fun _ => [6], .subscribe 10, .sendMessage 9 0, .getHosts 10] s ∧
      s.next (.publish [pack 1 2]) = some s' ∧ s'.Scheduled [pack 1 2] := by
  have hrun : ∃ s s', Run (ofOption next) (create fun _ => [5])
      [.createSubscribe 9, .createSubscribe 10, .getRequest 9 1 2, .subscribe 9, .getHosts 9,
        .getRequest 10 1 2, .swap fun _ => [6], .subscribe 10, .sendMessage 9 0, .getHosts 10] s ∧
      s.next (.publish [pack 1 2]) = some s' := ⟨_, _, run_of_foldlM rfl, rfl⟩
  obtain ⟨s, s', hs, hpublish⟩ := hrun
  exact ⟨s, s', hs, hpublish, publish_schedules hs hpublish⟩

end RequestOrder

end LarsSystem.Dns
