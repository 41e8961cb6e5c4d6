import LarsSystem.RouteSystem
import LarsSystem.Transition

/-!
# No key stays in PULLING

An answer without hosts takes a key out of the map while an older request for it
may still be open, and the next `get_host` creates the key anew with a request
of its own; so the requests of several objects of one key overlap. Over a
connection that takes every message, keeps the order and never ends, an object
without hosts still has the request that its own pull sent: waiting to be
answered, or answered by a response that the client has yet to apply. Whatever
that response brings, the object has hosts afterwards or is gone.

All of this takes that the client reads. One that was given a request before its
connect was reported never does: the request is answered, and its key stays.
-/

namespace LarsSystem.Agent

open LarsSystem.MachineWord
open LarsSystem.Transition

/-- The request that a response answers. -/
def Reply.pull? (reply : Reply) : Option Pull :=
  reply.answers.map fun number => ⟨number, reply.rsp.modid, reply.rsp.cmdid⟩

namespace RouteSystem

/-- The requests whose responses are not applied. -/
def answered (s : RouteSystem) : List Pull := s.link.replies.filterMap Reply.pull?

/-! ## What is promised, and when it holds -/

/-- What the response to the pull of an object without hosts does to its map: without hosts it
    takes the object out, else it gives the object its hosts. -/
def Settles (cfg : LbConfig) (map map' : RouteMap) (key : BitVec 64) (entry : RouteEntry)
    (hosts : List HostEntry) : Prop :=
  (hosts = [] ∧ map' = map.erase key) ∨
    hosts ≠ [] ∧ ∃ lb, entry.lb.update cfg hosts = Except.ok lb ∧
      (∀ host, host ∈ lb.hostMap ↔ host ∈ hosts.map HostEntry.key) ∧
      map' = map.set key { entry with lb := lb }

/-- **What the pulls promise**, in every state. -/
structure Unstuck (cfg : LbConfig) (s : RouteSystem) : Prop where
  pulling : ∀ i key entry, s.routeLbs i key = some entry → entry.lb.empty = true →
    entry.status = .pulling
  /-- The request of the object is waiting, or answered by a response that is not applied. -/
  outstanding : ∀ i key entry, s.routeLbs i key = some entry → entry.lb.empty = true →
    ∃ req : GetRouteRequest, req.mod = key ∧ routeIndex req.modid req.cmdid = some i ∧
      (⟨entry.request, req⟩ ∈ s.waiting ∨
        ∃ hosts, ⟨some entry.request, req.modid, req.cmdid, hosts⟩ ∈ s.link.replies)
  /-- No two objects have the same request. -/
  own : ∀ i key entry i' key' entry', s.routeLbs i key = some entry →
    s.routeLbs i' key' = some entry' → entry.request = entry'.request → i = i' ∧ key = key'
  /-- No request is there twice. -/
  once : ((s.waiting ++ s.answered).map Pull.number).Nodup
  /-- The client has not gone blind under an object that waits for hosts. -/
  hears : ∀ i key entry, s.routeLbs i key = some entry → entry.lb.empty = true →
    s.blind = false
  /-- The response, when it is next, is taken and applied to the map that has the object. -/
  applied : ∀ i entry (req : GetRouteRequest) hosts rest, s.routeLbs i req.mod = some entry →
    entry.lb.empty = true →
    s.link.replies = ⟨some entry.request, req.modid, req.cmdid, hosts⟩ :: rest →
    ∃ map, s.next cfg .dealRecvRoute =
        some { s.setRoutes i map with link := s.link.setReplies rest } ∧
      Settles cfg (s.routeLbs i) map req.mod entry hosts

/-- The send buffers take every message, the connection does not end, and the API asks the server
    of the key, whose sum is neither negative nor too large. -/
def Reliable (_ : RouteSystem) : RouteLabel → Prop
  | .getHost i _ modid cmdid _ => 0 ≤ modid.toInt + cmdid.toInt ∧
      modid.toInt + cmdid.toInt < 2 ^ 31 ∧ routeIndex modid cmdid = some i
  | .sendMessage result => result = .accepted
  | .getRequest _ result => result = .accepted
  | .push _ result => result = .accepted
  | .drop => False
  | .cleanConn _ => False
  | _ => True

/-- No request goes into the empty send buffer before the connect is reported. -/
def Prompt (s : RouteSystem) : RouteLabel → Prop
  | .sendMessage _ => s.link = .connecting → s.obuf ≠ []
  | _ => True

/-! ## The invariant -/

/-- The invariant, of the maps, the number of requests sent, and the requests that are open. -/
structure PullInv (routes : Fin 3 → RouteMap) (sent : Nat) (pulls : List Pull) : Prop where
  pulling : ∀ i key entry, routes i key = some entry → entry.status = .pulling
  outstanding : ∀ i key entry, routes i key = some entry → entry.lb.empty = true →
    ∃ req : GetRouteRequest, req.mod = key ∧ routeIndex req.modid req.cmdid = some i ∧
      ⟨entry.request, req⟩ ∈ pulls
  entrySent : ∀ i key entry, routes i key = some entry → entry.request < sent
  own : ∀ i key entry i' key' entry', routes i key = some entry →
    routes i' key' = some entry' → entry.request = entry'.request → i = i' ∧ key = key'
  pullSent : ∀ pull ∈ pulls, pull.number < sent
  once : (pulls.map Pull.number).Nodup

section Invariant

variable {routes routes' : Fin 3 → RouteMap} {sent : Nat} {pulls pulls' : List Pull}

theorem PullInv.perm (hinv : PullInv routes sent pulls) (hperm : pulls'.Perm pulls) :
    PullInv routes sent pulls' where
  pulling := hinv.pulling
  outstanding := by
    intro i key entry hentry hempty
    obtain ⟨req, hkey, hindex, hmem⟩ := hinv.outstanding i key entry hentry hempty
    exact ⟨req, hkey, hindex, hperm.mem_iff.mpr hmem⟩
  entrySent := hinv.entrySent
  own := hinv.own
  pullSent := fun pull hpull => hinv.pullSent pull (hperm.mem_iff.mp hpull)
  once := (hperm.map Pull.number).nodup_iff.mpr hinv.once

theorem PullInv.narrow (hinv : PullInv routes sent pulls) (hnarrow : Narrows routes routes') :
    PullInv routes' sent pulls where
  pulling := by
    intro i key entry' hentry'
    obtain ⟨entry, hentry, -, hstatus, -⟩ := hnarrow i key entry' hentry'
    rw [hstatus]
    exact hinv.pulling i key entry hentry
  outstanding := by
    intro i key entry' hentry' hempty
    obtain ⟨entry, hentry, hrequest, -, hwas⟩ := hnarrow i key entry' hentry'
    rw [hrequest]
    exact hinv.outstanding i key entry hentry (hwas hempty)
  entrySent := by
    intro i key entry' hentry'
    obtain ⟨entry, hentry, hrequest, -, -⟩ := hnarrow i key entry' hentry'
    rw [hrequest]
    exact hinv.entrySent i key entry hentry
  own := by
    intro i key entry' j key' other' hentry' hother' hsame
    obtain ⟨entry, hentry, hrequest, -, -⟩ := hnarrow i key entry' hentry'
    obtain ⟨other, hother, hrequest', -, -⟩ := hnarrow j key' other' hother'
    rw [hrequest, hrequest'] at hsame
    exact hinv.own i key entry j key' other hentry hother hsame
  pullSent := hinv.pullSent
  once := hinv.once

/-- A new object gets a number that no object and no request has. -/
theorem PullInv.create (hinv : PullInv routes sent pulls) {i : Fin 3} {modid cmdid : BitVec 32}
    (hindex : routeIndex modid cmdid = some i) (lb : LoadBalance) :
    PullInv (Function.update routes i
        ((routes i).set (pack modid cmdid) ⟨lb, .pulling, sent⟩))
      (sent + 1) (⟨sent, modid, cmdid⟩ :: pulls) where
  pulling := by
    intro j key entry hentry
    rw [set_apply] at hentry
    split at hentry
    · cases hentry
      rfl
    · exact hinv.pulling j key entry hentry
  outstanding := by
    intro j key entry hentry hempty
    rw [set_apply] at hentry
    split at hentry
    · rename_i hsame
      obtain ⟨rfl, rfl⟩ := hsame
      cases hentry
      exact ⟨⟨modid, cmdid⟩, rfl, hindex, List.mem_cons_self⟩
    · obtain ⟨req, hkey, hreq, hmem⟩ := hinv.outstanding j key entry hentry hempty
      exact ⟨req, hkey, hreq, List.mem_cons_of_mem _ hmem⟩
  entrySent := by
    intro j key entry hentry
    rw [set_apply] at hentry
    split at hentry
    · cases hentry
      exact Nat.lt_succ_self sent
    · exact Nat.lt_succ_of_lt (hinv.entrySent j key entry hentry)
  own := by
    intro j key entry j' key' entry' hentry hentry' hsame
    rw [set_apply] at hentry hentry'
    split at hentry
    · rename_i hnew
      cases hentry
      split at hentry'
      · rename_i hnew'
        exact ⟨hnew.1.trans hnew'.1.symm, hnew.2.trans hnew'.2.symm⟩
      · exact absurd hsame (hinv.entrySent j' key' entry' hentry').ne'
    · split at hentry'
      · cases hentry'
        exact absurd hsame (hinv.entrySent j key entry hentry).ne
      · exact hinv.own j key entry j' key' entry' hentry hentry' hsame
  pullSent := by
    intro pull hpull
    rcases List.mem_cons.mp hpull with rfl | hold
    · exact Nat.lt_succ_self sent
    · exact Nat.lt_succ_of_lt (hinv.pullSent pull hold)
  once := by
    rw [List.map_cons, List.nodup_cons]
    refine ⟨?_, hinv.once⟩
    intro hmem
    obtain ⟨pull, hpull, hnumber⟩ := List.mem_map.mp hmem
    exact absurd hnumber (hinv.pullSent pull hpull).ne

/-- A request may be closed once the key of it has hosts, or is not in the map. -/
theorem PullInv.close (hinv : PullInv routes sent pulls) {pull : Pull}
    (hperm : pulls.Perm (pull :: pulls'))
    (hsettled : ∀ i entry, routeIndex pull.req.modid pull.req.cmdid = some i →
      routes i pull.req.mod = some entry → entry.lb.empty = false) :
    PullInv routes sent pulls' where
  pulling := hinv.pulling
  outstanding := by
    intro i key entry hentry hempty
    obtain ⟨req, rfl, hindex, hmem⟩ := hinv.outstanding i key entry hentry hempty
    rcases List.mem_cons.mp (hperm.mem_iff.mp hmem) with rfl | hrest
    · have hfull := hsettled i entry hindex hentry
      rw [hempty] at hfull
      cases hfull
    · exact ⟨req, rfl, hindex, hrest⟩
  entrySent := hinv.entrySent
  own := hinv.own
  pullSent := fun other hother =>
    hinv.pullSent other (hperm.mem_iff.mpr (List.mem_cons_of_mem pull hother))
  once := by
    have honce := (hperm.map Pull.number).nodup_iff.mp hinv.once
    rw [List.map_cons, List.nodup_cons] at honce
    exact honce.2

end Invariant

/-- The connection has neither ended nor lost the bounds of its messages. -/
def Steady (s : RouteSystem) : Prop :=
  match s.link with
  | .connecting => s.cut = false
  | .up conn => conn.garbled = false
  | .ended _ => False

theorem Steady.cut {s : RouteSystem} (hsteady : s.Steady) (hlink : s.link = .connecting) :
    s.cut = false := by
  unfold Steady at hsteady
  rwa [hlink] at hsteady

theorem Steady.garbled {s : RouteSystem} (hsteady : s.Steady) {conn : Connection}
    (hlink : s.link = .up conn) : conn.garbled = false := by
  unfold Steady at hsteady
  rwa [hlink] at hsteady

theorem Steady.not_ended {s : RouteSystem} (hsteady : s.Steady) (replies : List Reply) :
    s.link ≠ .ended replies := by
  intro hlink
  unfold Steady at hsteady
  rwa [hlink] at hsteady

/-- The transport has done no harm: whole messages both ways, and a client that reads. -/
structure Clean (s : RouteSystem) : Prop where
  steady : s.Steady
  whole : Parcel.debris ∉ s.link.requests ++ s.obuf
  torn : s.torn = false
  blind : s.blind = false

structure SystemInv (s : RouteSystem) : Prop where
  clean : s.Clean
  pulls : PullInv s.routeLbs s.sent (s.waiting ++ s.answered)
  /-- Before the connection is up, the request of each object is on its way, and each request is
      that of an object. -/
  asking : s.link = .connecting → ∀ pull ∈ s.waiting, ∃ i entry,
    s.routeLbs i pull.req.mod = some entry ∧ entry.lb.empty = true

theorem systemInv_create : SystemInv create := by
  refine ⟨⟨rfl, List.not_mem_nil, rfl, rfl⟩, ⟨?_, ?_, ?_, ?_, ?_, List.nodup_nil⟩, ?_⟩
  · intro i key entry hentry
    cases hentry
  · intro i key entry hentry
    cases hentry
  · intro i key entry hentry
    cases hentry
  · intro i key entry i' key' entry' hentry
    cases hentry
  · exact fun pull hpull => absurd hpull List.not_mem_nil
  · exact fun _ pull hpull => absurd hpull List.not_mem_nil

/-! ## Objects stay -/

/-- No object goes, and none gets or loses its hosts. -/
def Stays (routes routes' : Fin 3 → RouteMap) : Prop :=
  ∀ i key entry, routes i key = some entry →
    ∃ entry', routes' i key = some entry' ∧ entry'.lb.empty = entry.lb.empty

theorem stays_refl (routes : Fin 3 → RouteMap) : Stays routes routes :=
  fun _ _ entry hentry => ⟨entry, hentry, rfl⟩

theorem stays_set {routes : Fin 3 → RouteMap} {i : Fin 3} {key : BitVec 64} {new : RouteEntry}
    (hnew : ∀ entry, routes i key = some entry → new.lb.empty = entry.lb.empty) :
    Stays routes (Function.update routes i ((routes i).set key new)) := by
  intro j key' entry hentry
  rw [set_apply]
  split
  · rename_i hsame
    obtain ⟨rfl, rfl⟩ := hsame
    exact ⟨new, rfl, hnew entry hentry⟩
  · exact ⟨entry, hentry, rfl⟩

/-! ## One step keeps the invariant -/

section Steps

variable {cfg : LbConfig} {s s' : RouteSystem}

theorem getHostCb_stays {i : Fin 3} {seq modid cmdid : BitVec 32} {accessCnt : Int}
    (hget : s.getHostCb cfg i seq modid cmdid accessCnt = some s') :
    Stays s.routeLbs s'.routeLbs := by
  unfold getHostCb at hget
  split at hget
  · cases hget
  rename_i result hresult
  rcases RouteMap.getHost_cases hresult with
    ⟨entry, lb, hentry, chosen, hsent, hmap⟩ | ⟨hnone, hsent, hmap⟩
  · simp only [hsent, hmap, Option.some.injEq] at hget
    rw [← hget]
    refine stays_set fun old hold => ?_
    cases hentry.symm.trans hold
    exact chosen.empty
  · simp only [hsent, hmap, Option.some.injEq] at hget
    rw [← hget]
    exact stays_set fun old hold => nomatch hnone.symm.trans hold

theorem reportHost_stays {i : Fin 3} {modid cmdid ip port retcode ts : BitVec 32}
    (hnext : s.next cfg (.reportHost i modid cmdid ip port retcode ts) = some s') :
    Stays s.routeLbs s'.routeLbs := by
  simp only [next] at hnext
  split at hnext
  · cases hnext
  rename_i map report hreport
  cases hnext
  rcases RouteMap.reportHost_cases hreport with rfl | ⟨entry, lb, hentry, hlb, rfl⟩
  · simp only [setRoutes, Function.update_eq_self]
    exact stays_refl _
  · refine stays_set fun old hold => ?_
    cases hentry.symm.trans hold
    exact LoadBalance.report_empty hlb

/-- A step that only moves requests along. -/
theorem SystemInv.move (hinv : SystemInv s) (hclean : s'.Clean)
    (hroutes : s'.routeLbs = s.routeLbs) (hsent : s'.sent = s.sent)
    (hperm : (s'.waiting ++ s'.answered).Perm (s.waiting ++ s.answered))
    (hlink : s'.link = .connecting → s.link = .connecting) : SystemInv s' := by
  refine ⟨hclean, ?_, ?_⟩
  · rw [hroutes, hsent]
    exact hinv.pulls.perm hperm
  · intro hconnecting pull hpull
    have hmem := hperm.mem_iff.mp (List.mem_append_left _ hpull)
    have hnone : s.answered = [] := by simp only [answered, hlink hconnecting, Link.replies]; rfl
    rw [hnone, List.append_nil] at hmem
    rw [hroutes]
    exact hinv.asking (hlink hconnecting) pull hmem

theorem SystemInv.getHost (hinv : SystemInv s) {i : Fin 3} {seq modid cmdid : BitVec 32}
    {accessCnt : Int} (hindex : routeIndex modid cmdid = some i)
    (hget : s.getHostCb cfg i seq modid cmdid accessCnt = some s') : SystemInv s' := by
  have hstays := getHostCb_stays hget
  have hclean := hinv.clean
  have hasking : ∀ pull ∈ s.waiting, s.link = .connecting → ∃ i entry,
      s'.routeLbs i pull.req.mod = some entry ∧ entry.lb.empty = true := by
    intro pull hpull hlink
    obtain ⟨j, entry, hentry, hempty⟩ := hinv.asking hlink pull hpull
    obtain ⟨entry', hentry', hsame⟩ := hstays j _ entry hentry
    exact ⟨j, entry', hentry', hsame.trans hempty⟩
  rcases getHostCb_cases hget with ⟨map, hnarrow, rfl⟩ | ⟨-, rfl⟩
  · exact ⟨⟨hclean.steady, hclean.whole, hclean.torn, hclean.blind⟩,
      hinv.pulls.narrow hnarrow, fun hlink pull hpull => hasking pull hpull hlink⟩
  · refine ⟨⟨hclean.steady, hclean.whole, hclean.torn, hclean.blind⟩,
      (hinv.pulls.create hindex _).perm ?_, fun hlink pull hpull => ?_⟩
    · simp only [waiting, answered, setRoutes, ← List.append_assoc]
      exact (List.perm_append_singleton _ _).append_right _
    · simp only [waiting, setRoutes, ← List.append_assoc] at hpull
      rcases List.mem_append.mp hpull with hold | hnew
      · exact hasking pull (by simpa only [waiting, List.append_assoc] using hold) hlink
      · -- the new object has no hosts
        obtain rfl := List.mem_singleton.mp hnew
        refine ⟨i, ⟨LoadBalance.create modid cmdid accessCnt, .pulling, s.sent⟩, ?_, rfl⟩
        simp only [setRoutes, Function.update_self, RouteMap.set]
        exact Function.update_self ..

theorem SystemInv.reportHost (hinv : SystemInv s) {i : Fin 3}
    {modid cmdid ip port retcode ts : BitVec 32}
    (hnext : s.next cfg (.reportHost i modid cmdid ip port retcode ts) = some s') :
    SystemInv s' := by
  have hstays := reportHost_stays hnext
  have hclean := hinv.clean
  obtain ⟨map, hnarrow, rfl⟩ := reportHost_cases hnext
  refine ⟨⟨hclean.steady, hclean.whole, hclean.torn, hclean.blind⟩,
    hinv.pulls.narrow hnarrow, fun hlink pull hpull => ?_⟩
  obtain ⟨j, entry, hentry, hempty⟩ := hinv.asking hlink pull hpull
  obtain ⟨entry', hentry', hsame⟩ := hstays j _ entry hentry
  exact ⟨j, entry', hentry', hsame.trans hempty⟩

/-- A message goes to the end of the send buffer; a client whose connect is reported, or whose
    buffer is not empty, still reads. -/
theorem SystemInv.sendMessage (hinv : SystemInv s) {result : SendResult}
    (hreliable : s.Reliable (.sendMessage result)) (hprompt : s.Prompt (.sendMessage result))
    (hnext : s.next cfg (.sendMessage result) = some s') : SystemInv s' := by
  obtain ⟨pull, rest, hmsgs, ⟨-, rfl⟩ | ⟨hrefused, -⟩⟩ := sendMessage_cases hnext
  · have hclean := hinv.clean
    refine hinv.move ⟨hclean.steady, ?_, hclean.torn, ?_⟩ rfl rfl ?_ id
    · have hwhole := hclean.whole
      simp only [List.mem_append, not_or, List.mem_singleton] at hwhole ⊢
      exact ⟨hwhole.1, hwhole.2, nofun⟩
    · change s.blinds = false
      unfold blinds
      split
      · rename_i hlink hobuf
        exact absurd hobuf (hprompt hlink)
      · exact hclean.blind
    · simp [waiting, answered, hmsgs]
  · exact absurd hreliable hrefused

theorem SystemInv.beginWrite (hinv : SystemInv s) (hnext : s.next cfg .beginWrite = some s') :
    SystemInv s' := by
  obtain ⟨hconnecting, rfl⟩ := beginWrite_cases hnext
  have hclean := hinv.clean
  refine hinv.move ⟨?_, hclean.whole, hclean.torn, hclean.blind⟩ rfl rfl (List.Perm.refl _) id
  unfold Steady
  cases hlink : s.link with
  | connecting => exact absurd hlink hconnecting
  | up conn => exact hclean.steady.garbled hlink
  | ended replies => exact absurd hlink (hclean.steady.not_ended replies)

theorem SystemInv.write (hinv : SystemInv s) (hnext : s.next cfg .write = some s') :
    SystemInv s' := by
  have hclean := hinv.clean
  obtain ⟨parcel, rest, hobuf, ⟨conn, hlink, rfl⟩ | ⟨replies, hlink, -⟩⟩ := write_cases hnext
  · have hclear := hclean.steady.garbled hlink
    refine hinv.move ⟨hclear, ?_, hclean.torn, hclean.blind⟩ rfl rfl ?_ nofun
    · have hwhole := hclean.whole
      simp only [hlink, hobuf, Link.requests] at hwhole ⊢
      simpa using hwhole
    · cases parcel <;> simp [waiting, answered, hlink, hobuf, Link.requests, Link.replies]
  · exact absurd hlink (hclean.steady.not_ended replies)

/-- A request that is served is answered at the end of the responses. -/
theorem SystemInv.getRequest (hinv : SystemInv s) {hosts : List HostEntry} {result : SendResult}
    (haccepted : result = .accepted) (hserve : s.getRequest hosts result = some s') :
    SystemInv s' := by
  have hclean := hinv.clean
  obtain ⟨conn, parcel, rest, hlink, hrequests, ⟨rfl, -⟩ | ⟨pull, -, hgarbled, -⟩ |
    ⟨pull, rfl, hclear, service, -, rfl⟩⟩ := getRequest_cases hserve
  · exact absurd hclean.whole (by simp [hlink, Link.requests, hrequests])
  · exact absurd (hclean.steady.garbled hlink) (by simp [hgarbled])
  · subst haccepted
    refine hinv.move ⟨hclear, ?_, hclean.torn, hclean.blind⟩ rfl rfl ?_ nofun
    · have hwhole := hclean.whole
      simp only [hlink, hrequests, Link.requests, List.cons_append, List.mem_cons,
        not_or] at hwhole
      exact hwhole.2
    · simp only [waiting, answered, RouteSystem.answer, hlink, hrequests, Link.requests,
        Link.replies, List.filterMap_append, pullsOf_cons_request, List.cons_append,
        ← List.append_assoc]
      exact List.perm_append_singleton _ _

theorem SystemInv.push (hinv : SystemInv s) {rsp : GetRouteResponse} {result : SendResult}
    (haccepted : result = .accepted) (hnext : s.next cfg (.push rsp result) = some s') :
    SystemInv s' := by
  have hclean := hinv.clean
  obtain ⟨conn, hlink, rfl⟩ := push_cases hnext
  have hclear := hclean.steady.garbled hlink
  have hwhole := hclean.whole
  subst haccepted
  rw [hlink] at hwhole
  refine hinv.move ⟨hclear, hwhole, hclean.torn, hclean.blind⟩ rfl rfl ?_ nofun
  simp [waiting, answered, RouteSystem.answer, hlink, Link.requests, Link.replies, Reply.pull?,
    List.filterMap_cons]

theorem Clean.setReplies {replies : List Reply} (hclean : s.Clean) :
    { s with link := s.link.setReplies replies }.Clean := by
  refine ⟨?_, ?_, hclean.torn, hclean.blind⟩
  · unfold Steady
    cases hlink : s.link with
    | connecting => exact hclean.steady.cut hlink
    | up conn =>
      have hclear := hclean.steady.garbled hlink
      exact hclear
    | ended old => exact absurd hlink (hclean.steady.not_ended old)
  · simpa only [Link.requests_setReplies] using hclean.whole

/-- The response that is taken leaves its key with hosts, or out of the map. -/
theorem SystemInv.dealRecvRoute (hinv : SystemInv s)
    (hnext : s.next cfg .dealRecvRoute = some s') : SystemInv s' := by
  obtain ⟨reply, rest, hreplies, -, hdeal⟩ := dealRecvRoute_cases hnext
  obtain ⟨i, map, hindex, hnarrow, hfull, rfl⟩ := deal_cases hdeal
  have hclean : Clean { s with link := s.link.setReplies rest } := hinv.clean.setReplies
  refine ⟨⟨hclean.steady, hclean.whole, hclean.torn, hclean.blind⟩, ?_, ?_⟩
  · have hpulls := hinv.pulls.narrow hnarrow
    simp only [waiting, answered, hreplies, List.filterMap_cons] at hpulls
    simp only [waiting, answered, setRoutes, Link.requests_setReplies,
      Link.replies_setReplies hreplies]
    cases hpull : reply.pull? with
    | none =>
      rw [hpull] at hpulls
      exact hpulls
    | some pull =>
      rw [hpull] at hpulls
      apply hpulls.close List.perm_middle
      obtain ⟨number, -, rfl⟩ := Option.map_eq_some_iff.mp hpull
      intro j entry hj hentry
      obtain rfl : i = j := Option.some.inj (hindex.symm.trans hj)
      simp only [setRoutes, Function.update_self] at hentry
      exact hfull entry hentry
  · intro hlink
    cases hold : s.link with
    | connecting =>
      rw [hold] at hreplies
      cases hreplies
    | up conn =>
      simp only [setRoutes, hold, Link.setReplies] at hlink
      cases hlink
    | ended replies => exact absurd hold (hinv.clean.steady.not_ended replies)

/-- One step keeps the invariant. -/
theorem SystemInv.next (hinv : SystemInv s) {label : RouteLabel} (hreliable : s.Reliable label)
    (hprompt : s.Prompt label) (hnext : s.next cfg label = some s') : SystemInv s' := by
  have hclean := hinv.clean
  cases label with
  | getHost i seq modid cmdid accessCnt =>
    obtain ⟨-, -, hindex⟩ := hreliable
    exact hinv.getHost hindex hnext
  | reportHost i modid cmdid ip port retcode ts => exact hinv.reportHost hnext
  | recv =>
    obtain ⟨hmsgs, rfl⟩ := recv_cases hnext
    refine hinv.move ⟨hclean.steady, hclean.whole, hclean.torn, hclean.blind⟩ rfl rfl ?_ id
    simp [waiting, answered, hmsgs]
  | sendMessage result => exact hinv.sendMessage hreliable hprompt hnext
  | beginWrite => exact hinv.beginWrite hnext
  | write => exact hinv.write hnext
  | drop => exact hreliable.elim
  | cleanConn half => exact hreliable.elim
  | connect fd =>
    obtain ⟨hlink, -, rfl⟩ := connect_cases hnext
    have hwhole := hclean.whole
    rw [hlink] at hwhole
    refine hinv.move ⟨hclean.steady.cut hlink, hwhole, hclean.torn, hclean.blind⟩ rfl rfl ?_ nofun
    simp [waiting, answered, hlink, Link.requests, Link.replies]
  | getRequest hosts result => exact hinv.getRequest hreliable hnext
  | getGarbled req hosts result =>
    obtain ⟨conn, hlink, hgarbled, -⟩ := getGarbled_cases hnext
    exact absurd (hclean.steady.garbled hlink) (by simp [hgarbled])
  | push rsp result => exact hinv.push hreliable hnext
  | dealRecvRoute => exact hinv.dealRecvRoute hnext
  | dealGarbled rsp =>
    obtain ⟨-, htorn, -⟩ := dealGarbled_cases hnext
    exact absurd hclean.torn (by simp [htorn])
  | loseReply =>
    obtain ⟨reply, rest, -, -, htorn, -⟩ := loseReply_cases hnext
    exact absurd hclean.torn (by simp [htorn])
  | service label =>
    obtain ⟨-, service, -, rfl⟩ := service_cases hnext
    exact hinv.move ⟨hclean.steady, hclean.whole, hclean.torn, hclean.blind⟩ rfl rfl
      (List.Perm.refl _) id

end Steps

/-! ## Every run -/

/-- An answered request is one of a response in the list. -/
theorem mem_answered {s : RouteSystem} {number : Nat} {req : GetRouteRequest}
    (hmem : ⟨number, req⟩ ∈ s.answered) :
    ∃ hosts, ⟨some number, req.modid, req.cmdid, hosts⟩ ∈ s.link.replies := by
  obtain ⟨⟨answers, rsp⟩, hreply, hpull⟩ := List.mem_filterMap.mp hmem
  obtain ⟨number', rfl, hpull⟩ := Option.map_eq_some_iff.mp hpull
  cases hpull
  exact ⟨rsp.hosts, hreply⟩

/-- `update_host` settles an object without hosts, whatever the response brings. -/
theorem updateHost_settles (cfg : LbConfig) {map : RouteMap} {req : GetRouteRequest}
    {entry : RouteEntry} (hosts : List HostEntry) (hentry : map req.mod = some entry)
    (hempty : entry.lb.empty = true) :
    ∃ map', map.updateHost cfg req.modid req.cmdid ⟨req.modid, req.cmdid, hosts⟩ =
        Except.ok map' ∧ Settles cfg map map' req.mod entry hosts := by
  have hkey : map (pack req.modid req.cmdid) = some entry := hentry
  unfold RouteMap.updateHost
  simp only [hkey]
  by_cases hhosts : hosts = []
  · rw [hhosts]
    exact ⟨_, rfl, Or.inl ⟨rfl, rfl⟩⟩
  · obtain ⟨lb, hupdate, hkeys⟩ := LoadBalance.update_of_empty cfg hempty hhosts
    rw [if_neg (by simpa using hhosts)]
    simp only [hupdate]
    exact ⟨_, rfl, Or.inr ⟨hhosts, lb, hupdate, hkeys, rfl⟩⟩

/-- The response to an object's own pull has the module and the index of the object. -/
theorem SystemInv.applied {s : RouteSystem} (hinv : SystemInv s) (cfg : LbConfig) {i : Fin 3}
    {entry : RouteEntry} {req : GetRouteRequest} {hosts : List HostEntry} {rest : List Reply}
    (hentry : s.routeLbs i req.mod = some entry) (hempty : entry.lb.empty = true)
    (hreplies : s.link.replies =
      ⟨some entry.request, req.modid, req.cmdid, hosts⟩ :: rest) :
    ∃ map, s.next cfg .dealRecvRoute =
        some { s.setRoutes i map with link := s.link.setReplies rest } ∧
      Settles cfg (s.routeLbs i) map req.mod entry hosts := by
  obtain ⟨req', hkey, hindex, -⟩ := hinv.pulls.outstanding i req.mod entry hentry hempty
  obtain ⟨hmodid, hcmdid⟩ := pack_inj.mp hkey
  rw [hmodid, hcmdid] at hindex
  obtain ⟨map, hupdate, hsettles⟩ := updateHost_settles cfg hosts hentry hempty
  have hreads : s.reads = true := by
    unfold reads
    cases hlink : s.link with
    | connecting =>
      rw [hlink] at hreplies
      cases hreplies
    | up conn => simp [hinv.clean.blind]
    | ended replies => simp [hinv.clean.blind]
  refine ⟨map, ?_, hsettles⟩
  simp only [RouteSystem.next, hreplies, hreads, if_true, deal, hindex, hupdate]
  rfl

theorem SystemInv.unstuck {s : RouteSystem} (hinv : SystemInv s) (cfg : LbConfig) :
    s.Unstuck cfg where
  pulling := fun i key entry hentry _ => hinv.pulls.pulling i key entry hentry
  outstanding := by
    intro i key entry hentry hempty
    obtain ⟨req, hkey, hindex, hmem⟩ := hinv.pulls.outstanding i key entry hentry hempty
    refine ⟨req, hkey, hindex, ?_⟩
    rcases List.mem_append.mp hmem with hwaiting | hanswered
    · exact Or.inl hwaiting
    · exact Or.inr (mem_answered hanswered)
  own := hinv.pulls.own
  once := hinv.pulls.once
  hears := fun _ _ _ _ _ => hinv.clean.blind
  applied := fun _ _ _ _ _ hentry hempty hreplies => hinv.applied cfg hentry hempty hreplies

/-- A request that goes out before the connect is reported blinds the client under an object. -/
theorem SystemInv.prompt {cfg : LbConfig} {s s' : RouteSystem} (hinv : SystemInv s)
    {label : RouteLabel} (hreliable : s.Reliable label) (hnext : s.next cfg label = some s')
    (hunstuck : s'.Unstuck cfg) : s.Prompt label := by
  cases label with
  | sendMessage result =>
    intro hlink hobuf
    obtain ⟨pull, rest, hmsgs, ⟨-, rfl⟩ | ⟨hrefused, -⟩⟩ := sendMessage_cases hnext
    · have hwaiting : pull ∈ s.waiting := by simp [waiting, hmsgs]
      obtain ⟨i, entry, hentry, hempty⟩ := hinv.asking hlink pull hwaiting
      have hblind : s.blinds = false := hunstuck.hears i _ entry hentry hempty
      simp only [blinds, hlink, hobuf] at hblind
      cases hblind
    · exact absurd hreliable hrefused
  | _ => trivial

/-- **No key stays in PULLING over a reliable connection, exactly if the client is not given a
    request before its connect is reported**: in every state of a run, each object without hosts
    is PULLING and has a request of its own, which is yet to be answered, or whose answer is yet
    to be applied to the map that has the object. -/
theorem unstuck_iff_prompt (cfg : LbConfig) (labels : List RouteLabel) (s : RouteSystem) :
    Run (Into (Unstuck cfg) (Guarded Reliable (ofOption (next cfg)))) create labels s ↔
      Run (Guarded Prompt (Guarded Reliable (ofOption (next cfg)))) create labels s := by
  refine run_into_iff_guarded ?_ ?_ systemInv_create
  · rintro t label t' ht hprompt ⟨hreliable, hnext⟩
    exact ht.next hreliable hprompt hnext
  · rintro t label t' ht ⟨hreliable, hnext⟩
    exact ⟨ht.prompt hreliable hnext,
      fun hprompt => (ht.next hreliable hprompt hnext).unstuck cfg⟩

/-- A push without hosts takes the key out while its first request is open; the second object has
    the second request. -/
theorem unstuck_two_pulls :
    ∃ s, Run (Into (Unstuck Balancer.defaultConfig)
        (Guarded Reliable (ofOption (next Balancer.defaultConfig)))) create
        [.connect 7, .getHost 0 1 1 2 0, .recv, .sendMessage .accepted, .write,
          .push ⟨1, 2, []⟩ .accepted, .dealRecvRoute, .getHost 0 2 1 2 0,
          .getRequest [⟨9, 80⟩] .accepted] s := by
  have hapi : 0 ≤ (1 : BitVec 32).toInt + (2 : BitVec 32).toInt ∧
      (1 : BitVec 32).toInt + (2 : BitVec 32).toInt < 2 ^ 31 ∧ routeIndex 1 2 = some 0 := by
    decide
  have hrun : ∃ s, Run (Guarded Prompt
      (Guarded Reliable (ofOption (next Balancer.defaultConfig)))) create
      [.connect 7, .getHost 0 1 1 2 0, .recv, .sendMessage .accepted, .write,
        .push ⟨1, 2, []⟩ .accepted, .dealRecvRoute, .getHost 0 2 1 2 0,
        .getRequest [⟨9, 80⟩] .accepted] s := by
    exact ⟨_, Run.cons ⟨trivial, trivial, rfl⟩ (Run.cons ⟨trivial, hapi, rfl⟩
      (Run.cons ⟨trivial, trivial, rfl⟩ (Run.cons ⟨nofun, rfl, rfl⟩
      (Run.cons ⟨trivial, trivial, rfl⟩ (Run.cons ⟨trivial, rfl, rfl⟩
      (Run.cons ⟨trivial, trivial, rfl⟩ (Run.cons ⟨trivial, hapi, rfl⟩
      (Run.cons ⟨trivial, rfl, rfl⟩ (Run.nil _)))))))))⟩
  obtain ⟨s, hs⟩ := hrun
  exact ⟨s, (unstuck_iff_prompt Balancer.defaultConfig _ s).mpr hs⟩

/-! ### A client that has gone blind -/

/-- The client does not read, and an object of the key waits for hosts. -/
def Stuck (key : BitVec 64) (s : RouteSystem) : Prop :=
  s.blind = true ∧ ∃ i entry, s.routeLbs i key = some entry ∧ entry.lb.empty = true

section Stuck

variable {cfg : LbConfig} {s s' : RouteSystem} {key : BitVec 64}

theorem Stuck.stays (hstuck : Stuck key s) (hblind : s'.blind = true)
    (hstays : Stays s.routeLbs s'.routeLbs) : Stuck key s' := by
  obtain ⟨-, i, entry, hentry, hempty⟩ := hstuck
  obtain ⟨entry', hentry', hsame⟩ := hstays i key entry hentry
  exact ⟨hblind, i, entry', hentry', hsame.trans hempty⟩

/-- Only the end of the connection would help. -/
theorem Stuck.next (hstuck : Stuck key s) {label : RouteLabel} (hreliable : s.Reliable label)
    (hnext : s.next cfg label = some s') : Stuck key s' := by
  have hblind := hstuck.1
  have hdeaf : s.reads = false := by
    unfold reads
    split <;> simp [hblind]
  cases label with
  | getHost i seq modid cmdid accessCnt =>
    refine hstuck.stays ?_ (getHostCb_stays hnext)
    rcases getHostCb_cases hnext with ⟨map, -, rfl⟩ | ⟨-, rfl⟩ <;> exact hblind
  | reportHost i modid cmdid ip port retcode ts =>
    refine hstuck.stays ?_ (reportHost_stays hnext)
    obtain ⟨map, -, rfl⟩ := reportHost_cases hnext
    exact hblind
  | recv =>
    obtain ⟨-, rfl⟩ := recv_cases hnext
    exact hstuck
  | sendMessage result =>
    obtain ⟨pull, rest, -, ⟨-, rfl⟩ | ⟨hrefused, -⟩⟩ := sendMessage_cases hnext
    · refine hstuck.stays ?_ (stays_refl _)
      change s.blinds = true
      unfold blinds
      split
      · rfl
      · exact hblind
    · exact absurd hreliable hrefused
  | beginWrite =>
    obtain ⟨-, rfl⟩ := beginWrite_cases hnext
    exact hstuck
  | write =>
    obtain ⟨parcel, rest, -, ⟨conn, -, rfl⟩ | ⟨replies, -, rfl⟩⟩ := write_cases hnext <;>
      exact hstuck
  | drop => exact hreliable.elim
  | cleanConn half => exact hreliable.elim
  | connect fd =>
    obtain ⟨-, -, rfl⟩ := connect_cases hnext
    exact hstuck
  | getRequest hosts result =>
    obtain rfl : result = .accepted := hreliable
    obtain ⟨conn, parcel, rest, -, -, ⟨-, rfl⟩ | ⟨pull, -, -, rfl⟩ |
      ⟨pull, -, -, service, -, rfl⟩⟩ := getRequest_cases hnext <;> exact hstuck
  | getGarbled req hosts result =>
    obtain ⟨conn, -, -, service, -, rfl⟩ := getGarbled_cases hnext
    cases result <;> exact hstuck
  | push rsp result =>
    obtain ⟨conn, -, rfl⟩ := push_cases hnext
    cases result <;> exact hstuck
  | dealRecvRoute =>
    obtain ⟨reply, rest, -, hreads, -⟩ := dealRecvRoute_cases hnext
    exact absurd hreads (by simp [hdeaf])
  | dealGarbled rsp =>
    obtain ⟨hreads, -, -⟩ := dealGarbled_cases hnext
    exact absurd hreads (by simp [hdeaf])
  | loseReply =>
    obtain ⟨reply, rest, -, hreads, -, rfl⟩ := loseReply_cases hnext
    exact absurd hreads (by simp [hdeaf])
  | service label =>
    obtain ⟨-, service, -, rfl⟩ := service_cases hnext
    exact hstuck

end Stuck

/-- **A key stays in PULLING for ever**: its request goes out before the connect is reported, it
    is served and answered, and the client never reads the answer. -/
theorem early_request_stuck :
    ∃ labels s, Run (Guarded Reliable (ofOption (next Balancer.defaultConfig))) create labels s ∧
      ¬ s.Unstuck Balancer.defaultConfig ∧
      ∀ more t, Run (Guarded Reliable (ofOption (next Balancer.defaultConfig))) s more t →
        ∃ i entry, t.routeLbs i (pack 1 2) = some entry ∧ entry.lb.empty = true := by
  have hapi : 0 ≤ (1 : BitVec 32).toInt + (2 : BitVec 32).toInt ∧
      (1 : BitVec 32).toInt + (2 : BitVec 32).toInt < 2 ^ 31 ∧ routeIndex 1 2 = some 0 := by
    decide
  refine ⟨[.getHost 0 1 1 2 0, .recv, .sendMessage .accepted, .connect 7, .write,
    .getRequest [⟨9, 80⟩] .accepted], _,
    Run.cons ⟨hapi, rfl⟩ (Run.cons ⟨trivial, rfl⟩ (Run.cons ⟨rfl, rfl⟩ (Run.cons ⟨trivial, rfl⟩
      (Run.cons ⟨trivial, rfl⟩ (Run.cons ⟨rfl, rfl⟩ (Run.nil _)))))), ?_, ?_⟩
  · intro hunstuck
    have hblind := hunstuck.hears 0 (pack 1 2) _ rfl rfl
    cases hblind
  · intro more t hrun
    have hstuck : Stuck (pack 1 2) t := by
      refine hrun.invariant ?_ ⟨rfl, 0, _, rfl, rfl⟩
      rintro u label u' hu ⟨hreliable, hnext⟩
      exact hu.next hreliable hnext
    exact hstuck.2

/-- The assertion of `get_host` holds. -/
theorem Unstuck.no_assert {cfg : LbConfig} {s : RouteSystem} (hunstuck : s.Unstuck cfg)
    (i : Fin 3) (modid cmdid : BitVec 32) (rsp : GetHostResponse) (accessCnt : Int)
    (number : Nat) :
    (s.routeLbs i).getHost cfg modid cmdid rsp accessCnt number ≠
      Except.error .statusAssert := by
  intro hget
  unfold RouteMap.getHost at hget
  simp only at hget
  split at hget
  · rename_i entry hentry
    split at hget
    · rename_i hempty
      rw [if_pos (hunstuck.pulling i _ entry hentry hempty)] at hget
      cases hget
    · split at hget <;> cases hget
  · cases hget

end RouteSystem

end LarsSystem.Agent
