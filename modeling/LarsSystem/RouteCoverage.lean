import LarsSystem.RouteSystem
import LarsSystem.Transition

/-!
# A route that is kept is a route that is subscribed

The subscription of a module is the service's, filed under the descriptor of the
connection; the cached route is the agent's. A request ties the two together,
once, when the route is created. Where the connection ends, the service clears
the subscriptions of it, and the client sets up a new connection and asks for
nothing: the routes it holds are never refreshed. What is not lost with the
connection is a request that the client still has; but the send buffer can lose one
too, where it refuses the body of a later one.
-/

namespace LarsSystem.Agent

open LarsSystem.Transition

/-- One of the requests is for the module. -/
def AsksFor (pulls : List Pull) (mod : Dns.Mod) : Prop := ∃ pull ∈ pulls, pull.req.mod = mod

theorem asksFor_append {pulls more : List Pull} {mod : Dns.Mod} :
    AsksFor (pulls ++ more) mod ↔ AsksFor pulls mod ∨ AsksFor more mod := by
  unfold AsksFor
  constructor
  · rintro ⟨pull, hpull, hmod⟩
    rcases List.mem_append.mp hpull with hfirst | hmore
    · exact Or.inl ⟨pull, hfirst, hmod⟩
    · exact Or.inr ⟨pull, hmore, hmod⟩
  · rintro (⟨pull, hpull, hmod⟩ | ⟨pull, hpull, hmod⟩)
    · exact ⟨pull, List.mem_append_left _ hpull, hmod⟩
    · exact ⟨pull, List.mem_append_right _ hpull, hmod⟩

theorem asksFor_cons {pull : Pull} {pulls : List Pull} {mod : Dns.Mod} :
    AsksFor (pull :: pulls) mod ↔ pull.req.mod = mod ∨ AsksFor pulls mod := by
  unfold AsksFor
  simp only [List.mem_cons, exists_eq_or_imp]

namespace RouteSystem

/-! ## What is promised, and when it holds -/

/-- The module is in one of the maps. -/
def Held (s : RouteSystem) (mod : Dns.Mod) : Prop := ∃ i entry, s.routeLbs i mod = some entry

/-- The service has the module for the connection that is up. -/
def Subscribed (s : RouteSystem) (mod : Dns.Mod) : Prop :=
  ∃ fd, s.link.fd? = some fd ∧ s.service.lists.Has mod fd

/-- The requests that the client has not written, the one half written included. -/
def unsent (s : RouteSystem) : List Pull := pullsOf s.obuf ++ (s.msgs ++ s.dnsQueue)

/-- **What a cached route promises**, in every state: the service has its module for the
    connection, or will have. -/
def Covered (s : RouteSystem) : Prop :=
  ∀ mod, s.Held mod → s.Subscribed mod ∨ AsksFor s.waiting mod

/-- No route needs the request: its module is in no map, or is subscribed, or another request
    for it is on its way. -/
def CanSpare (s : RouteSystem) (pull : Pull) (others : List Pull) : Prop :=
  s.Held pull.req.mod → s.Subscribed pull.req.mod ∨ AsksFor others pull.req.mod

/-- The connection ends only while the client still has a request for each module of its maps,
    and no route needs a request that is refused by the send buffer or hit there by the refusal
    of another, that is written after the end, or that the service reads on a connection that is
    garbled. -/
def Spared (s : RouteSystem) : RouteLabel → Prop
  | .drop => ∀ mod, s.Held mod → AsksFor s.unsent mod
  | .sendMessage result => result ≠ .accepted → ∀ pull rest, s.msgs = pull :: rest →
      ∀ lost ∈ pull :: pullsOf (s.obuf.take result.hit), s.CanSpare lost
        (pullsOf s.link.requests ++ (pullsOf (s.obuf.drop result.hit) ++ (rest ++ s.dnsQueue)))
  | .write => ∀ replies pull rest, s.link = .ended replies → s.obuf = .request pull :: rest →
      s.CanSpare pull (pullsOf rest ++ (s.msgs ++ s.dnsQueue))
  | .getRequest _ _ => ∀ conn pull rest, s.link = .up conn → conn.garbled = true →
      conn.requests = .request pull :: rest → s.CanSpare pull (pullsOf rest ++ s.unsent)
  | _ => True

/-! ## The invariant -/

structure CoverInv (s : RouteSystem) : Prop where
  covered : s.Covered
  service : Dns.DnsService.ServiceInv s.service
  /-- The thread of the connection that is up waits for requests. -/
  online : ∀ fd, s.link.fd? = some fd →
    ∃ mods, s.service.clients fd = some ⟨some mods, .waiting⟩

theorem coverInv_create : CoverInv create := by
  refine ⟨?_, Dns.DnsService.serviceInv_create, ?_⟩
  · rintro mod ⟨i, entry, hentry⟩
    cases hentry
  · intro fd hfd
    cases hfd

section Steps

variable {cfg : LbConfig} {s s' : RouteSystem}

theorem held_of_narrows (hnarrow : Narrows s.routeLbs s'.routeLbs) {mod : Dns.Mod}
    (hheld : s'.Held mod) : s.Held mod := by
  obtain ⟨i, entry', hentry'⟩ := hheld
  obtain ⟨entry, hentry, -⟩ := hnarrow i mod entry' hentry'
  exact ⟨i, entry, hentry⟩

/-- A step of the agent on one connection: what it holds was held, and the requests for it are
    still there. -/
theorem CoverInv.agent (hinv : CoverInv s) (hnarrow : Narrows s.routeLbs s'.routeLbs)
    (hservice : s'.service = s.service) (hfd : s'.link.fd? = s.link.fd?)
    (hwaiting : ∀ mod, s.Held mod → AsksFor s.waiting mod →
      s.Subscribed mod ∨ AsksFor s'.waiting mod) : CoverInv s' := by
  refine ⟨?_, hservice ▸ hinv.service, ?_⟩
  · intro mod hheld
    have hwas := held_of_narrows hnarrow hheld
    unfold Subscribed
    rw [hfd, hservice]
    rcases hinv.covered mod hwas with hsub | hasks
    · exact Or.inl hsub
    · exact hwaiting mod hwas hasks
  · rw [hfd, hservice]
    exact hinv.online

/-- A step of the agent that loses no request. -/
theorem CoverInv.move (hinv : CoverInv s) (hnarrow : Narrows s.routeLbs s'.routeLbs)
    (hservice : s'.service = s.service) (hfd : s'.link.fd? = s.link.fd?)
    (hwaiting : s'.waiting = s.waiting) : CoverInv s' := by
  apply hinv.agent hnarrow hservice hfd
  intro mod _ hasks
  rw [hwaiting]
  exact Or.inr hasks

/-- A new route has its request in `dns_queue`. -/
theorem CoverInv.getHost (hinv : CoverInv s) {i : Fin 3} {seq modid cmdid : BitVec 32}
    {accessCnt : Int} (hget : s.getHostCb cfg i seq modid cmdid accessCnt = some s') :
    CoverInv s' := by
  rcases getHostCb_cases hget with ⟨map, hnarrow, rfl⟩ | ⟨-, rfl⟩
  · exact hinv.move hnarrow rfl rfl rfl
  · refine ⟨?_, hinv.service, hinv.online⟩
    rintro mod ⟨j, entry, hentry⟩
    simp only [setRoutes, set_apply] at hentry
    simp only [waiting, setRoutes, ← List.append_assoc]
    rw [asksFor_append]
    split at hentry
    · rename_i hnew
      exact Or.inr (Or.inr ⟨_, List.mem_singleton.mpr rfl, hnew.2.symm⟩)
    · rcases hinv.covered mod ⟨j, entry, hentry⟩ with hsub | hasks
      · exact Or.inl hsub
      · refine Or.inr (Or.inl ?_)
        simpa only [waiting, List.append_assoc] using hasks

/-- A refused body loses its request and those that it hits. -/
theorem CoverInv.sendMessage (hinv : CoverInv s) {result : SendResult}
    (hspared : s.Spared (.sendMessage result))
    (hnext : s.next cfg (.sendMessage result) = some s') : CoverInv s' := by
  obtain ⟨pull, rest, hmsgs, ⟨-, rfl⟩ | ⟨hrefused, obuf, hobuf, rfl⟩⟩ := sendMessage_cases hnext
  · refine hinv.move (narrows_refl _) rfl rfl ?_
    simp [waiting, hmsgs]
  · refine hinv.agent (narrows_refl _) rfl rfl ?_
    intro mod hheld hasks
    have hlost := hspared hrefused pull rest hmsgs
    have hsplit : pullsOf s.obuf =
        pullsOf (s.obuf.take result.hit) ++ pullsOf (s.obuf.drop result.hit) := by
      rw [← pullsOf_append, List.take_append_drop]
    simp only [waiting, hmsgs, hsplit, hobuf, List.cons_append, asksFor_append,
      asksFor_cons] at hasks ⊢
    by_cases hmod : ∃ lost ∈ pull :: pullsOf (s.obuf.take result.hit), lost.req.mod = mod
    · obtain ⟨lost, hmem, rfl⟩ := hmod
      simpa only [asksFor_append] using hlost lost hmem hheld
    · have hpull : pull.req.mod ≠ mod := fun h => hmod ⟨pull, List.mem_cons_self, h⟩
      have htaken : ¬ AsksFor (pullsOf (s.obuf.take result.hit)) mod := by
        rintro ⟨lost, hmem, h⟩
        exact hmod ⟨lost, List.mem_cons_of_mem pull hmem, h⟩
      simp only [hpull, htaken, false_or] at hasks
      exact Or.inr hasks

theorem CoverInv.write (hinv : CoverInv s) (hspared : s.Spared .write)
    (hnext : s.next cfg .write = some s') : CoverInv s' := by
  obtain ⟨parcel, rest, hobuf, ⟨conn, hlink, rfl⟩ | ⟨replies, hlink, rfl⟩⟩ := write_cases hnext
  · refine hinv.move (narrows_refl _) rfl (by rw [hlink]; rfl) ?_
    simp only [waiting, hlink, hobuf, Link.requests, pullsOf_append, List.append_assoc]
    rw [← List.append_assoc (pullsOf [parcel]), ← pullsOf_append]
    rfl
  · refine hinv.agent (narrows_refl _) rfl rfl ?_
    intro mod hheld hasks
    simp only [waiting, hlink, hobuf, Link.requests, pullsOf_nil, List.nil_append] at hasks ⊢
    cases parcel with
    | debris => exact Or.inr hasks
    | request pull =>
      simp only [pullsOf_cons_request, List.cons_append, asksFor_cons] at hasks
      rcases hasks with rfl | hasks
      · exact hspared replies pull rest hlink hobuf hheld
      · exact Or.inr hasks

/-- Nothing is subscribed after the end; the client's own requests are still there. -/
theorem CoverInv.drop (hinv : CoverInv s) (hspared : s.Spared .drop)
    (hnext : s.next cfg .drop = some s') : CoverInv s' := by
  obtain ⟨conn, -, rfl⟩ := drop_cases hnext
  refine ⟨?_, hinv.service, ?_⟩
  · intro mod hheld
    exact Or.inr (hspared mod hheld)
  · intro fd hfd
    cases hfd

theorem CoverInv.connect (hinv : CoverInv s) {fd : Dns.Fd}
    (hnext : s.next cfg (.connect fd) = some s') : CoverInv s' := by
  obtain ⟨hlink, hnone, rfl⟩ := connect_cases hnext
  refine ⟨?_, hinv.service.createSubscribe hnone, ?_⟩
  · intro mod hheld
    rcases hinv.covered mod hheld with ⟨fd', hfd', -⟩ | hasks
    · rw [hlink] at hfd'
      cases hfd'
    · unfold waiting at hasks ⊢
      rw [hlink] at hasks
      exact Or.inr hasks
  · intro fd' hfd'
    obtain rfl : fd = fd' := Option.some.inj hfd'
    exact ⟨∅, Function.update_self ..⟩

/-- A module that is served is subscribed, and the others stay so. -/
theorem CoverInv.serve (hinv : CoverInv s) {conn : Connection} (hlink : s.link = .up conn)
    {mod : Dns.Mod} {service : Dns.DnsService}
    (hserve : s.service.serve conn.fd mod = some service) (hservice : s'.service = service)
    (hfd : s'.link.fd? = some conn.fd) (hroutes : s'.routeLbs = s.routeLbs)
    (hwaiting : ∀ mod', AsksFor s.waiting mod' → mod' = mod ∨ AsksFor s'.waiting mod') :
    CoverInv s' := by
  obtain ⟨mods, hclient⟩ := hinv.online conn.fd (by rw [hlink]; rfl)
  obtain ⟨hservice', hclient'⟩ := Dns.DnsService.serve_spec hinv.service hclient hserve
  have hlisted : ∀ mod', mod' = mod ∨ mod' ∈ mods → s'.Subscribed mod' := by
    intro mod' hmod
    refine ⟨conn.fd, hfd, ?_⟩
    rw [hservice]
    exact (hservice'.has_iff hclient' mod').mpr (Finset.mem_insert.mpr hmod)
  refine ⟨?_, hservice ▸ hservice', ?_⟩
  · rintro mod' ⟨i, entry, hentry⟩
    rw [hroutes] at hentry
    rcases hinv.covered mod' ⟨i, entry, hentry⟩ with ⟨fd, hfd', hhas⟩ | hasks
    · rw [hlink] at hfd'
      obtain rfl : conn.fd = fd := Option.some.inj hfd'
      exact Or.inl (hlisted mod' (Or.inr ((hinv.service.has_iff hclient mod').mp hhas)))
    · rcases hwaiting mod' hasks with hmod | hasks'
      · exact Or.inl (hlisted mod' (Or.inl hmod))
      · exact Or.inr hasks'
  · intro fd hfd'
    rw [hfd] at hfd'
    obtain rfl : conn.fd = fd := Option.some.inj hfd'
    exact ⟨_, hservice ▸ hclient'⟩

/-- A request that is served leaves the connection, and its module is subscribed. -/
theorem CoverInv.getRequest (hinv : CoverInv s) {hosts : List HostEntry} {result : SendResult}
    (hspared : s.Spared (.getRequest hosts result)) (hserve : s.getRequest hosts result = some s') :
    CoverInv s' := by
  obtain ⟨conn, parcel, rest, hlink, hrequests, ⟨rfl, rfl⟩ | ⟨pull, rfl, hgarbled, rfl⟩ |
    ⟨pull, rfl, -, service, hservice, rfl⟩⟩ := getRequest_cases hserve
  · refine hinv.move (narrows_refl _) rfl (by rw [hlink]; rfl) ?_
    simp [waiting, hlink, Link.requests, hrequests]
  · refine hinv.agent (narrows_refl _) rfl (by rw [hlink]; rfl) ?_
    intro mod hheld hasks
    simp only [waiting, hlink, Link.requests, hrequests, pullsOf_cons_request, List.cons_append,
      asksFor_cons] at hasks
    rcases hasks with rfl | hasks
    · exact hspared conn pull rest hlink hgarbled hrequests hheld
    · exact Or.inr hasks
  · obtain ⟨replies, torn, heq, -⟩ := answer_cases { s with service := service }
      { conn with requests := rest } ⟨some pull.number, pull.req.modid, pull.req.cmdid, hosts⟩ result
    rw [heq]
    refine hinv.serve hlink hservice rfl rfl rfl ?_
    intro mod hasks
    simp only [waiting, hlink, Link.requests, hrequests, pullsOf_cons_request, List.cons_append,
      asksFor_cons] at hasks
    rcases hasks with hmod | hasks
    · exact Or.inl hmod.symm
    · exact Or.inr hasks

theorem CoverInv.getGarbled (hinv : CoverInv s) {req : GetRouteRequest} {hosts : List HostEntry}
    {result : SendResult} (hserve : s.getGarbled req hosts result = some s') : CoverInv s' := by
  obtain ⟨conn, hlink, -, service, hservice, rfl⟩ := getGarbled_cases hserve
  obtain ⟨replies, torn, heq, -⟩ := answer_cases { s with service := service } conn
    ⟨none, req.modid, req.cmdid, hosts⟩ result
  rw [heq]
  refine hinv.serve hlink hservice rfl rfl rfl ?_
  intro mod hasks
  simp only [waiting, hlink, Link.requests] at hasks ⊢
  exact Or.inr hasks

/-- A response that is dealt with only narrows the maps. -/
theorem CoverInv.deal (hinv : CoverInv s) {rsp : GetRouteResponse}
    (hdeal : s.deal cfg rsp = some s') : CoverInv s' := by
  obtain ⟨i, map, -, hnarrow, -, rfl⟩ := deal_cases hdeal
  exact hinv.move hnarrow rfl rfl rfl

theorem CoverInv.setReplies (hinv : CoverInv s) (replies : List Reply) :
    CoverInv { s with link := s.link.setReplies replies } := by
  refine hinv.move (narrows_refl _) rfl (Link.fd?_setReplies ..) ?_
  simp [waiting]

/-- The other connections of the service do not touch the subscriptions of this one. -/
theorem CoverInv.others (hinv : CoverInv s) {label : Dns.ServiceLabel}
    (hnext : s.next cfg (.service label) = some s') : CoverInv s' := by
  obtain ⟨hother, service, hservice, rfl⟩ := service_cases hnext
  have hservice' := hinv.service.next hservice
  have hclients : ∀ fd, s.link.fd? = some fd → service.clients fd = s.service.clients fd := by
    intro fd hfd
    apply Dns.DnsService.next_clients_of_ne hservice
    rintro rfl
    exact hother hfd
  refine ⟨?_, hservice', ?_⟩
  · intro mod hheld
    rcases hinv.covered mod hheld with ⟨fd, hfd, hhas⟩ | hasks
    · obtain ⟨mods, hclient⟩ := hinv.online fd hfd
      have hmem := (hinv.service.has_iff hclient mod).mp hhas
      exact Or.inl ⟨fd, hfd,
        (hservice'.has_iff ((hclients fd hfd).trans hclient) mod).mpr hmem⟩
    · exact Or.inr hasks
  · intro fd hfd
    obtain ⟨mods, hclient⟩ := hinv.online fd hfd
    exact ⟨mods, (hclients fd hfd).trans hclient⟩

/-- One step keeps the invariant. -/
theorem CoverInv.next (hinv : CoverInv s) {label : RouteLabel} (hspared : s.Spared label)
    (hnext : s.next cfg label = some s') : CoverInv s' := by
  cases label with
  | getHost i seq modid cmdid accessCnt => exact hinv.getHost hnext
  | reportHost i modid cmdid ip port retcode ts =>
    obtain ⟨map, hnarrow, rfl⟩ := reportHost_cases hnext
    exact hinv.move hnarrow rfl rfl rfl
  | recv =>
    obtain ⟨hmsgs, rfl⟩ := recv_cases hnext
    refine hinv.move (narrows_refl _) rfl rfl ?_
    simp [waiting, hmsgs]
  | sendMessage result => exact hinv.sendMessage hspared hnext
  | beginWrite =>
    obtain ⟨-, rfl⟩ := beginWrite_cases hnext
    exact hinv.move (narrows_refl _) rfl rfl rfl
  | write => exact hinv.write hspared hnext
  | drop => exact hinv.drop hspared hnext
  | cleanConn half =>
    obtain ⟨⟨hlink, -⟩ | ⟨replies, hlink⟩, rfl⟩ := cleanConn_cases hnext
    · exact hinv.move (narrows_refl _) rfl (by rw [hlink]) (by simp only [waiting, hlink])
    · refine hinv.move (narrows_refl _) rfl (by rw [hlink]; rfl) ?_
      simp only [waiting, hlink, Link.requests]
  | connect fd => exact hinv.connect hnext
  | getRequest hosts result => exact hinv.getRequest hspared hnext
  | getGarbled req hosts result => exact hinv.getGarbled hnext
  | push rsp result =>
    obtain ⟨conn, hlink, rfl⟩ := push_cases hnext
    obtain ⟨replies, torn, heq, -⟩ := answer_cases s conn ⟨none, rsp⟩ result
    rw [heq]
    refine hinv.move (narrows_refl _) rfl (by rw [hlink]; rfl) ?_
    simp only [waiting, hlink, Link.requests]
  | dealRecvRoute =>
    obtain ⟨reply, rest, -, -, hdeal⟩ := dealRecvRoute_cases hnext
    exact (hinv.setReplies rest).deal hdeal
  | dealGarbled rsp =>
    obtain ⟨-, -, hdeal⟩ := dealGarbled_cases hnext
    exact hinv.deal hdeal
  | loseReply =>
    obtain ⟨reply, rest, -, -, -, rfl⟩ := loseReply_cases hnext
    exact hinv.setReplies rest
  | service label => exact hinv.others hnext

/-- A step that is not spared leaves a route uncovered. -/
theorem spared_of_covered {label : RouteLabel} (hnext : s.next cfg label = some s')
    (hcovered : s'.Covered) : s.Spared label := by
  cases label with
  | drop =>
    obtain ⟨conn, -, rfl⟩ := drop_cases hnext
    intro mod hheld
    rcases hcovered mod hheld with ⟨fd, hfd, -⟩ | hasks
    · cases hfd
    · exact hasks
  | sendMessage result =>
    intro hrefused pull rest hmsgs lost _ hheld
    obtain ⟨pull', rest', hmsgs', ⟨haccepted, -⟩ | ⟨-, obuf, hobuf, rfl⟩⟩ :=
      sendMessage_cases hnext
    · exact absurd haccepted hrefused
    · cases hmsgs.symm.trans hmsgs'
      have hother := hcovered _ hheld
      simp only [waiting, hobuf] at hother
      exact hother
  | write =>
    intro replies pull rest hlink hobuf hheld
    simp only [RouteSystem.next, hlink, hobuf, Option.some.injEq] at hnext
    subst hnext
    rcases hcovered _ hheld with ⟨fd, hfd, -⟩ | hasks
    · cases hfd
    · exact Or.inr hasks
  | getRequest hosts result =>
    intro conn pull rest hlink hgarbled hrequests hheld
    simp only [RouteSystem.next, RouteSystem.getRequest, hlink, hrequests, hgarbled, if_true,
      Option.some.injEq] at hnext
    subst hnext
    rcases hcovered _ hheld with ⟨fd, hfd, hhas⟩ | hasks
    · refine Or.inl ⟨fd, ?_, hhas⟩
      rw [hlink]
      exact hfd
    · exact Or.inr hasks
  | _ => trivial

end Steps

/-! ## Every run -/

/-- **Every route is subscribed, or will be, in every state of a run exactly if the connection
    does not end under a route and no request is lost that a route needs.** -/
theorem covered_iff_spared (cfg : LbConfig) (labels : List RouteLabel) (s : RouteSystem) :
    Run (Into Covered (ofOption (next cfg))) create labels s ↔
      Run (Guarded Spared (ofOption (next cfg))) create labels s := by
  refine run_into_iff_guarded ?_ ?_ coverInv_create
  · exact fun t label t' ht hspared hnext => ht.next hspared hnext
  · intro t label t' ht hnext
    exact ⟨spared_of_covered hnext, fun hspared => (ht.next hspared hnext).covered⟩

/-- A route is cached, the connection ends and is set up again: nobody asks for the module. -/
theorem reconnected_route_uncovered :
    ∃ labels s, Run (ofOption (next Balancer.defaultConfig)) create labels s ∧
      ¬ s.Covered := by
  refine ⟨[.connect 7, .getHost 0 1 1 2 0, .recv, .sendMessage .accepted, .write,
    .getRequest [⟨9, 80⟩] .accepted, .dealRecvRoute, .drop, .cleanConn false, .connect 8], _,
    run_of_foldlM rfl, ?_⟩
  intro hcovered
  rcases hcovered (MachineWord.pack 1 2) ⟨0, _, rfl⟩ with ⟨fd, hfd, fds, hfds, hmem⟩ | hasks
  · cases hfd
    cases hfds
    revert hmem
    decide
  · obtain ⟨pull, hpull, -⟩ := hasks
    exact List.not_mem_nil hpull

end RouteSystem

end LarsSystem.Agent
