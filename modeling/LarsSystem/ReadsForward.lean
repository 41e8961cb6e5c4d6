import LarsSystem.RouteReads

/-!
# Reads of the table go forward

Each copy of the table, or of a part of it, is given the time of the contents that
it is from. A step makes the copy next to it as old as itself, or adds a copy of its
own time. Along the way of a module the times never fall: what callers have got,
what the agent holds, the responses under way in their order, the map of the
service. A connection that is lost takes the responses under way with it, all of
them, and the responses on the next one are newer; what is left of one in the
client's input would be read in front of them, so none may be left there.
-/

namespace LarsSystem.Agent

open LarsSystem.MachineWord
open LarsSystem.Transition

/-! ## Times -/

/-- When the table had what is there now: for each module what was handed out and what the agent
    holds, then the responses under way and the two maps of the service. -/
structure Times where
  handed : Dns.Mod → List Nat
  seen : Dns.Mod → Nat
  replies : List Nat
  data : Nat
  temp : Nat

/-- The way of a module, from what callers have got to what the service answers from. -/
def Times.line (t : Times) (mod : Dns.Mod) : List Nat :=
  t.handed mod ++ t.seen mod :: (t.replies ++ [t.data])

section Ascending

variable {l m : List Nat} {a b : Nat}

theorem ascending_raise (hl : (l ++ [a]).Pairwise (· ≤ ·)) (hab : a ≤ b) :
    (l ++ [b]).Pairwise (· ≤ ·) := by
  rw [List.pairwise_append] at hl ⊢
  refine ⟨hl.1, List.pairwise_singleton _ _, ?_⟩
  intro x hx y hy
  rw [List.mem_singleton.mp hy]
  exact le_trans (hl.2.2 x hx a (List.mem_singleton.mpr rfl)) hab

theorem ascending_double (hl : (l ++ a :: m).Pairwise (· ≤ ·)) :
    (l ++ a :: a :: m).Pairwise (· ≤ ·) := by
  rw [List.pairwise_append, List.pairwise_cons] at hl ⊢
  obtain ⟨hfirst, ⟨ha, hm⟩, hcross⟩ := hl
  refine ⟨hfirst, ⟨?_, List.pairwise_cons.mpr ⟨ha, hm⟩⟩, ?_⟩
  · intro x hx
    rcases List.mem_cons.mp hx with rfl | hx
    · exact Nat.le_refl x
    · exact ha x hx
  · intro x hx y hy
    rcases List.mem_cons.mp hy with rfl | hy
    · exact hcross x hx y List.mem_cons_self
    · exact hcross x hx y hy

end Ascending

namespace RouteReads

/-- The response was made from the map of a time. -/
def MadeAt (contents : List (List Dns.RouteRow)) (time : Nat) (reply : Reply) : Prop :=
  ∃ map, Dns.MapAt contents time map ∧
    reply.rsp.hosts =
      (Dns.Route.getHosts map reply.rsp.modid reply.rsp.cmdid).map HostEntry.ofKey

/-- **What the times say of a state.** The objects of a key have the hosts of one time, and have
    hosts in the map of its index only; and nothing is newer than what it was made from. -/
structure Explains (r : RouteReads) (t : Times) : Prop where
  current : r.contents.getLast? = some r.monitor.tables.routeData
  data : Dns.MapAt r.contents t.data r.monitor.route.data
  temp : r.monitor.Loaded →
    t.data ≤ t.temp ∧ Dns.MapAt r.contents t.temp r.monitor.route.temp
  replies : List.Forall₂ (MadeAt r.contents) t.replies r.system.link.replies
  objects : ∀ i key entry, r.system.routeLbs i key = some entry → entry.lb.Catalogued ∧
    ∀ h, entry.lb.Names h →
      (∃ modid cmdid, key = pack modid cmdid ∧ routeIndex modid cmdid = some i) ∧
        Dns.HostAt r.contents key (t.seen key) h
  handed : ∀ mod, List.Forall₂ (Dns.HostAt r.contents mod) (t.handed mod) (r.handed mod)
  ascends : ∀ mod, (t.line mod).Pairwise (· ≤ ·)

section Steps

variable {cfg : LbConfig} {r : RouteReads} {t : Times}

theorem MadeAt.append {contents more : List (List Dns.RouteRow)} {time : Nat} {reply : Reply}
    (made : MadeAt contents time reply) : MadeAt (contents ++ more) time reply := by
  obtain ⟨map, hmap, hhosts⟩ := made
  exact ⟨map, hmap.append, hhosts⟩

/-! ### The monitor -/

theorem Explains.write (ex : Explains r t) {m : Dns.Monitor} {rows : List Dns.RouteRow}
    (htable : m.tables.routeData = rows) (hroute : m.route = r.monitor.route)
    (hpc : m.pc = r.monitor.pc) :
    Explains { r with monitor := m, contents := r.contents ++ [rows] } t where
  current := by simp [htable]
  data := by
    simp only [hroute]
    exact ex.data.append
  temp := by
    intro hloaded
    simp only [Dns.Monitor.Loaded, hpc] at hloaded
    simp only [hroute]
    obtain ⟨hle, hmap⟩ := ex.temp hloaded
    exact ⟨hle, hmap.append⟩
  replies := ex.replies.imp fun _ _ made => made.append
  objects := by
    intro i key entry hentry
    obtain ⟨hcatalogued, hnames⟩ := ex.objects i key entry hentry
    exact ⟨hcatalogued, fun h hh => ⟨(hnames h hh).1, (hnames h hh).2.append⟩⟩
  handed := fun mod => (ex.handed mod).imp fun _ _ hhost => hhost.append
  ascends := ex.ascends

/-- The last contents are those of the table, and nothing has a later time. -/
theorem Explains.last (ex : Explains r t) :
    t.data ≤ r.contents.length - 1 ∧
      Dns.MapAt r.contents (r.contents.length - 1)
        (Dns.Route.mapOf r.monitor.tables.routeData) := by
  obtain ⟨rows, hrows, -⟩ := ex.data
  obtain ⟨hlt, -⟩ := List.getElem?_eq_some_iff.mp hrows
  have hlast := ex.current
  rw [List.getLast?_eq_getElem?] at hlast
  exact ⟨by omega, _, hlast, rfl⟩

/-- Each step of the monitor takes the next copy from the one before. -/
theorem Explains.monitor (ex : Explains r t) {label : Dns.MonitorLabel} {m : Dns.Monitor}
    (hnext : r.monitor.next label = some m) :
    ∃ t', Explains { r with monitor := m, contents := Dns.written r.contents label } t' := by
  cases Dns.Monitor.next_moves hnext with
  | writes rows htable hroute hpc => exact ⟨t, ex.write htable hroute hpc⟩
  | keeps hlabel htable hdata htemp hloaded =>
    rw [hlabel]
    refine ⟨t, ?_, ?_, ?_, ex.replies, ex.objects, ex.handed, ex.ascends⟩
    · simp only [htable]
      exact ex.current
    · simp only [hdata]
      exact ex.data
    · simp only [htemp]
      exact fun h => ex.temp (hloaded h)
  | loads hlabel htable hdata htemp =>
    rw [hlabel]
    refine ⟨{ t with temp := r.contents.length - 1 }, ?_, ?_, ?_, ex.replies, ex.objects,
      ex.handed, ex.ascends⟩
    · simp only [htable]
      exact ex.current
    · simp only [hdata]
      exact ex.data
    · simp only [htemp]
      exact fun _ => ex.last
  | swaps hloaded htable hdata hdone =>
    obtain ⟨hle, hmap⟩ := ex.temp hloaded
    refine ⟨{ t with data := t.temp }, ?_, ?_, ?_, ex.replies, ex.objects, ex.handed, ?_⟩
    · simp only [htable]
      exact ex.current
    · simp only [hdata]
      exact hmap
    · exact fun h => absurd h hdone
    · intro mod
      have hline := ex.ascends mod
      simp only [Times.line, ← List.cons_append, ← List.append_assoc] at hline ⊢
      exact ascending_raise hline hle

/-! ### The agent and its connection -/

/-- A step that brings no host into an object; the responses stay under way or are lost. -/
theorem Explains.agent (ex : Explains r t) {system : RouteSystem}
    (hkeeps : RouteSystem.Keeps r.system.routeLbs system.routeLbs)
    (hreplies : system.link.replies = r.system.link.replies ∨ system.link.replies = []) :
    ∃ t', Explains { r with system := system } t' := by
  have hobjects : ∀ i key entry, system.routeLbs i key = some entry → entry.lb.Catalogued ∧
      ∀ h, entry.lb.Names h →
        (∃ modid cmdid, key = pack modid cmdid ∧ routeIndex modid cmdid = some i) ∧
          Dns.HostAt r.contents key (t.seen key) h := by
    intro i key entry' hentry'
    rcases hkeeps i key entry' hentry' with ⟨entry, hentry, hlb⟩ | ⟨hcatalogued, hnone⟩
    · obtain ⟨hcatalogued, hnames⟩ := ex.objects i key entry hentry
      obtain ⟨hcatalogued', hfewer⟩ := hlb hcatalogued
      exact ⟨hcatalogued', fun h hh => hnames h (hfewer h hh)⟩
    · exact ⟨hcatalogued, fun h hh => absurd hh (hnone h)⟩
  rcases hreplies with hsame | hlost
  · exact ⟨t, ex.current, ex.data, ex.temp, by simpa only [hsame] using ex.replies, hobjects,
      ex.handed, ex.ascends⟩
  · refine ⟨{ t with replies := [] }, ex.current, ex.data, ex.temp, ?_, hobjects, ex.handed, ?_⟩
    · simp only [hlost]
      exact List.Forall₂.nil
    · intro mod
      refine (ex.ascends mod).sublist ?_
      exact List.Sublist.append_left ((List.sublist_append_right _ _).cons_cons _) _

/-- A response is made from the map that is in place. -/
theorem Explains.respond (ex : Explains r t) {system : RouteSystem} {reply : Reply}
    (hroutes : system.routeLbs = r.system.routeLbs)
    (hreplies : system.link.replies = r.system.link.replies ++ [reply])
    (hmade : reply.rsp.hosts = (Dns.Route.getHosts r.monitor.route.data reply.rsp.modid
      reply.rsp.cmdid).map HostEntry.ofKey) :
    ∃ t', Explains { r with system := system } t' := by
  refine ⟨{ t with replies := t.replies ++ [t.data] }, ex.current, ex.data, ex.temp, ?_, ?_,
    ex.handed, ?_⟩
  · simp only [hreplies]
    exact List.rel_append ex.replies (List.Forall₂.cons ⟨_, ex.data, hmade⟩ List.Forall₂.nil)
  · simp only [hroutes]
    exact ex.objects
  · intro mod
    have hline := ex.ascends mod
    simp only [Times.line, List.append_assoc, List.singleton_append, ← List.cons_append] at hline ⊢
    rw [← List.append_assoc] at hline ⊢
    exact ascending_double hline

/-- A host that is handed out is one of what the agent holds. -/
theorem Explains.hand (ex : Explains r t) {i : Fin 3} {mod : Dns.Mod} {entry : RouteEntry}
    {h : HostEntry} (hentry : r.system.routeLbs i mod = some entry) (hnames : entry.lb.Names h) :
    ∃ t', Explains { r with handed := Function.update r.handed mod (r.handed mod ++ [h]) } t' := by
  refine ⟨{ t with handed := Function.update t.handed mod (t.handed mod ++ [t.seen mod]) },
    ex.current, ex.data, ex.temp, ex.replies, ex.objects, ?_, ?_⟩
  · intro other
    by_cases hother : other = mod
    · subst hother
      have hhost := ((ex.objects i other entry hentry).2 h hnames).2
      simp only [Function.update_self]
      exact List.rel_append (ex.handed other) (List.Forall₂.cons hhost List.Forall₂.nil)
    · simp only [Function.update_of_ne hother]
      exact ex.handed other
  · intro other
    by_cases hother : other = mod
    · subst hother
      simp only [Times.line, Function.update_self, List.append_assoc, List.singleton_append]
      exact ascending_double (ex.ascends other)
    · simp only [Times.line, Function.update_of_ne hother]
      exact ex.ascends other

/-- A response that arrives is not older than what the agent holds for its module. -/
theorem Explains.dealRecvRoute (ex : Explains r t) {system : RouteSystem}
    (hdeal : r.system.next cfg .dealRecvRoute = some system) :
    ∃ t', Explains { r with system := system } t' := by
  obtain ⟨reply, rest, hreplies, -, hinstall⟩ := RouteSystem.dealRecvRoute_cases hdeal
  obtain ⟨i, hindex, hlink, hinstalled⟩ := RouteSystem.deal_installs hinstall
  obtain ⟨time, times, htimes, ⟨map, hmap, hhosts⟩, hrest⟩ :
      ∃ time times, t.replies = time :: times ∧ MadeAt r.contents time reply ∧
        List.Forall₂ (MadeAt r.contents) times rest := by
    have hall := ex.replies
    rw [hreplies] at hall
    obtain ⟨time, times, hmade, hrest, htimes⟩ := List.forall₂_cons_right_iff.mp hall
    exact ⟨time, times, htimes, hmade, hrest⟩
  refine ⟨{ t with
      seen := Function.update t.seen (pack reply.rsp.modid reply.rsp.cmdid) time
      replies := times }, ex.current, ex.data, ex.temp, ?_, ?_, ex.handed, ?_⟩
  · simp only [hlink, Link.replies_setReplies hreplies]
    exact hrest
  · intro j key entry' hentry'
    rcases hinstalled j key entry' hentry' with
      ⟨rfl, rfl, entry, hentry, hlb⟩ | ⟨hother, hentry⟩
    · obtain ⟨hcatalogued, hnames⟩ := hlb (ex.objects _ _ entry hentry).1
      refine ⟨hcatalogued, fun h hh => ⟨⟨_, _, rfl, hindex⟩, ?_⟩⟩
      simp only [Function.update_self]
      exact hmap.host (hhosts ▸ hnames h hh)
    · obtain ⟨hcatalogued, hnames⟩ := ex.objects j key entry' hentry
      refine ⟨hcatalogued, fun h hh => ⟨(hnames h hh).1, ?_⟩⟩
      by_cases hkey : key = pack reply.rsp.modid reply.rsp.cmdid
      · -- the map of another index has no hosts for the key
        obtain ⟨modid, cmdid, hpack, hat⟩ := (hnames h hh).1
        obtain ⟨rfl, rfl⟩ := pack_inj.mp (hpack.symm.trans hkey)
        exact absurd ⟨Option.some.inj (hat.symm.trans hindex), hkey⟩ hother
      · simp only [Function.update_of_ne hkey]
        exact (hnames h hh).2
  · intro mod
    have hline := ex.ascends mod
    simp only [Times.line, htimes, List.cons_append] at hline ⊢
    by_cases hmod : mod = pack reply.rsp.modid reply.rsp.cmdid
    · subst hmod
      simp only [Function.update_self]
      exact hline.sublist (List.Sublist.append_left (List.sublist_cons_self _ _) _)
    · simp only [Function.update_of_ne hmod]
      exact hline.sublist
        (List.Sublist.append_left ((List.sublist_cons_self _ _).cons_cons _) _)

theorem Explains.getHost (ex : Explains r t) {i : Fin 3} {seq modid cmdid : BitVec 32}
    {accessCnt : Int} {system : RouteSystem}
    (hget : r.system.getHostCb cfg i seq modid cmdid accessCnt = some system) :
    ∃ t', Explains { r with
      system := system
      handed := r.system.handOut cfg r.handed (.getHost i seq modid cmdid accessCnt) } t' := by
  obtain ⟨hkeeps, hlink⟩ := RouteSystem.getHostCb_keeps hget
  simp only [RouteSystem.handOut]
  rcases hhanded : r.system.handedHost cfg i seq modid cmdid accessCnt with _ | h
  · simp only [Option.toList_none, List.append_nil, Function.update_eq_self]
    exact ex.agent hkeeps (Or.inl (by rw [hlink]))
  · -- the answer is read before the lists are turned
    obtain ⟨entry, hentry, hnames⟩ := RouteSystem.handedHost_names hhanded
    obtain ⟨t', ex'⟩ := ex.hand hentry hnames
    exact ex'.agent hkeeps (Or.inl (by rw [hlink]))

/-- A response that the service sends, or that its send buffer refuses. -/
theorem Explains.answer (ex : Explains r t) {s : RouteSystem} {conn : Connection} (reply : Reply)
    (hroutes : s.routeLbs = r.system.routeLbs) (hconn : conn.replies = r.system.link.replies)
    (hmade : reply.rsp.hosts = (Dns.Route.getHosts r.monitor.route.data reply.rsp.modid
      reply.rsp.cmdid).map HostEntry.ofKey) (result : SendResult) :
    ∃ t', Explains { r with system := s.answer conn reply result } t' := by
  obtain ⟨replies, torn, hanswer, ⟨-, hreplies⟩ | ⟨-, hreplies⟩, -⟩ :=
    RouteSystem.answer_cases s conn reply result
  · rw [hanswer]
    exact ex.respond hroutes (by rw [← hconn]; exact hreplies) hmade
  · rw [hanswer]
    refine ex.agent ?_ (Or.inl (by rw [← hconn]; exact hreplies))
    simp only [hroutes]
    exact RouteSystem.keeps_refl _

/-- The service reads a whole request and answers it, or reads what is none. -/
theorem Explains.getRequest (ex : Explains r t) {hosts : List HostEntry} {result : SendResult}
    {system : RouteSystem}
    (hhosts : ∀ pull rest, r.system.link.requests = .request pull :: rest →
      hosts = r.hostsFor pull.req)
    (hserve : r.system.getRequest hosts result = some system) :
    ∃ t', Explains { r with system := system } t' := by
  obtain ⟨conn, parcel, rest, hlink, hrequests, ⟨-, rfl⟩ | ⟨pull, -, -, rfl⟩ |
    ⟨pull, rfl, -, service, -, rfl⟩⟩ := RouteSystem.getRequest_cases hserve
  · exact ex.agent (RouteSystem.keeps_refl _) (Or.inl (by rw [hlink]; rfl))
  · exact ex.agent (RouteSystem.keeps_refl _) (Or.inl (by rw [hlink]; rfl))
  · have hmade := hhosts pull rest (by rw [hlink]; exact hrequests)
    exact ex.answer _ (by rfl) (by rw [hlink]; rfl) hmade result

/-- One step of the agent, of its client or of the connection. -/
theorem Explains.other (ex : Explains r t) (hwhole : r.system.torn = false) {label : RouteLabel}
    (hquiet : ¬ label.Answers) {system : RouteSystem}
    (hnext : r.system.next cfg label = some system) :
    ∃ t', Explains { r with
      system := system
      handed := r.system.handOut cfg r.handed label } t' := by
  have hkeeps := RouteSystem.keeps_refl r.system.routeLbs
  cases label with
  | getHost i seq modid cmdid accessCnt => exact ex.getHost hnext
  | reportHost i modid cmdid ip port retcode ts =>
    obtain ⟨hreported, hlink⟩ := RouteSystem.reportHost_keeps hnext
    exact ex.agent hreported (Or.inl (by rw [hlink]))
  | recv =>
    obtain ⟨-, rfl⟩ := RouteSystem.recv_cases hnext
    exact ex.agent hkeeps (Or.inl rfl)
  | sendMessage result =>
    obtain ⟨pull, rest, -, ⟨-, rfl⟩ | ⟨-, obuf, -, rfl⟩⟩ := RouteSystem.sendMessage_cases hnext
    · exact ex.agent hkeeps (Or.inl rfl)
    · exact ex.agent hkeeps (Or.inl rfl)
  | beginWrite =>
    obtain ⟨-, rfl⟩ := RouteSystem.beginWrite_cases hnext
    exact ex.agent hkeeps (Or.inl rfl)
  | write =>
    obtain ⟨parcel, rest, -, ⟨conn, hlink, rfl⟩ | ⟨replies, hlink, rfl⟩⟩ :=
      RouteSystem.write_cases hnext
    · exact ex.agent hkeeps (Or.inl (by rw [hlink]; rfl))
    · exact ex.agent hkeeps (Or.inl rfl)
  | drop =>
    obtain ⟨conn, hlink, rfl⟩ := RouteSystem.drop_cases hnext
    exact ex.agent hkeeps (Or.inl (by rw [hlink]; rfl))
  | cleanConn half =>
    obtain ⟨-, rfl⟩ := RouteSystem.cleanConn_cases hnext
    exact ex.agent hkeeps (Or.inr rfl)
  | connect fd =>
    obtain ⟨-, -, rfl⟩ := RouteSystem.connect_cases hnext
    exact ex.agent hkeeps (Or.inr rfl)
  | getRequest hosts result => exact absurd trivial hquiet
  | getGarbled req hosts result => exact absurd trivial hquiet
  | push rsp result => exact absurd trivial hquiet
  | dealRecvRoute => exact ex.dealRecvRoute hnext
  | dealGarbled rsp =>
    obtain ⟨-, htorn, -⟩ := RouteSystem.dealGarbled_cases hnext
    rw [hwhole] at htorn
    cases htorn
  | loseReply =>
    obtain ⟨reply, rest, -, -, htorn, -⟩ := RouteSystem.loseReply_cases hnext
    rw [hwhole] at htorn
    cases htorn
  | service label =>
    obtain ⟨-, service, -, rfl⟩ := RouteSystem.service_cases hnext
    exact ex.agent hkeeps (Or.inl rfl)

/-- One step. -/
theorem Explains.next (ex : Explains r t) (hwhole : r.system.torn = false) {label : ReadsLabel}
    {r' : RouteReads} (hnext : r.next cfg label = some r') : ∃ t', Explains r' t' := by
  cases label with
  | monitor label =>
    obtain ⟨m, hm, rfl⟩ := Option.map_eq_some_iff.mp hnext
    exact ex.monitor hm
  | getRequest result =>
    simp only [RouteReads.next] at hnext
    split at hnext
    · cases hnext
    · rename_i rest hrequests
      obtain ⟨system, hsystem, rfl⟩ := Option.map_eq_some_iff.mp hnext
      refine ex.getRequest ?_ hsystem
      intro pull rest' hwhole
      cases hrequests.symm.trans hwhole
    · rename_i pull rest hrequests
      obtain ⟨system, hsystem, rfl⟩ := Option.map_eq_some_iff.mp hnext
      refine ex.getRequest ?_ hsystem
      intro pull' rest' hwhole
      cases hrequests.symm.trans hwhole
      rfl
  | getGarbled req result =>
    obtain ⟨system, hsystem, rfl⟩ := Option.map_eq_some_iff.mp hnext
    obtain ⟨conn, hlink, -, service, -, rfl⟩ := RouteSystem.getGarbled_cases hsystem
    exact ex.answer _ (by rfl) (by rw [hlink]; rfl) (by rfl) result
  | push mod result =>
    obtain ⟨system, hsystem, rfl⟩ := Option.map_eq_some_iff.mp hnext
    obtain ⟨conn, hlink, rfl⟩ := RouteSystem.push_cases hsystem
    exact ex.answer _ (by rfl) (by rw [hlink]; rfl) (by rfl) result
  | agent label =>
    simp only [RouteReads.next] at hnext
    split at hnext
    · cases hnext
    · rename_i hquiet
      obtain ⟨system, hsystem, rfl⟩ := Option.map_eq_some_iff.mp hnext
      exact ex.other hwhole hquiet hsystem

end Steps

end RouteReads

end LarsSystem.Agent
