import LarsSystem.RouteLb
import LarsSystem.ClientSubscription

/-!
# An agent and the DNS service, with the connection between them

A pull of one of the three `route_lb` puts a request into `dns_queue`. The
thread of the DNS client takes the queue as a whole, packs the requests one by
one into the send buffer, and writes the buffer to the connection. The service
subscribes the connection to the module and answers; it also pushes changes, of
whatever module and with whatever hosts. The connection may end at any time,
between two messages or in the middle of one, and is set up again by the client.

Three slips of the transport show here. A body for which the send buffer has no
room takes the size of its head from the front of the buffer, out of messages
that wait there. A request that is sent while the connect is in progress takes the
write slot of `connection_succ`, so that the client never reads the connection.
And the client keeps the beginning of a response over the end of a connection.
-/

namespace LarsSystem.Agent

open LarsSystem.MachineWord

/-- A request on its way, with its number. -/
structure Pull where
  number : Nat
  req : GetRouteRequest

/-- What stands in the send buffer of the client, or goes to the service: a request, or bytes
    that are not a whole message. -/
inductive Parcel where
  | request (pull : Pull)
  | debris

def Parcel.pull? : Parcel → Option Pull
  | .request pull => some pull
  | .debris => none

/-- The requests among the parcels. -/
def pullsOf (parcels : List Parcel) : List Pull := parcels.filterMap Parcel.pull?

/-- A response on its way: the answer to the request of a number, or a push. -/
structure Reply where
  answers : Option Nat
  rsp : GetRouteResponse

/-- A connection in both directions. It is `garbled` where the service has read bytes that are
    not a whole message; what it takes for messages from then on need not be any. -/
structure Connection where
  fd : Dns.Fd
  garbled : Bool
  requests : List Parcel
  replies : List Reply

/-- What the client's socket is: connecting, connected, or ended without the client having
    noticed; it then still reads what has arrived. -/
inductive Link where
  | connecting
  | up (conn : Connection)
  | ended (replies : List Reply)

structure RouteSystem where
  routeLbs : Fin 3 → RouteMap
  /-- How many requests were sent so far. -/
  sent : Nat
  dnsQueue : List Pull
  /-- The queue that `new_dns_request` took, as far as it has not sent it. -/
  msgs : List Pull
  obuf : List Parcel
  /-- Some bytes of the first message of the send buffer are written. -/
  cut : Bool
  /-- The write slot of `connection_succ` is taken: the client writes and does not read. -/
  blind : Bool
  /-- What the client reads need not be whole responses any more. -/
  torn : Bool
  link : Link
  service : Dns.DnsService

/-- How `send_message` ends. Where the body finds no room, the head is in the buffer already,
    and its size is taken from the front, from `hit` of the messages that wait there. -/
inductive SendResult where
  | accepted
  | headRefused
  | bodyRefused (hit : Nat)

def SendResult.hit : SendResult → Nat
  | .bodyRefused hit => hit
  | _ => 0

inductive RouteLabel where
  | getHost (i : Fin 3) (seq modid cmdid : BitVec 32) (accessCnt : Int)
  | reportHost (i : Fin 3) (modid cmdid ip port retcode ts : BitVec 32)
  | recv
  | sendMessage (result : SendResult)
  | beginWrite
  | write
  | drop
  | cleanConn (half : Bool)
  | connect (fd : Dns.Fd)
  | getRequest (hosts : List HostEntry) (result : SendResult)
  | getGarbled (req : GetRouteRequest) (hosts : List HostEntry) (result : SendResult)
  | push (rsp : GetRouteResponse) (result : SendResult)
  | dealRecvRoute
  | dealGarbled (rsp : GetRouteResponse)
  | loseReply
  | service (label : Dns.ServiceLabel)

@[simp] theorem pullsOf_nil : pullsOf [] = [] := rfl

@[simp] theorem pullsOf_cons_request (pull : Pull) (parcels : List Parcel) :
    pullsOf (.request pull :: parcels) = pull :: pullsOf parcels := rfl

@[simp] theorem pullsOf_cons_debris (parcels : List Parcel) :
    pullsOf (.debris :: parcels) = pullsOf parcels := rfl

@[simp] theorem pullsOf_append (parcels more : List Parcel) :
    pullsOf (parcels ++ more) = pullsOf parcels ++ pullsOf more :=
  List.filterMap_append

def Link.requests : Link → List Parcel
  | .up conn => conn.requests
  | _ => []

def Link.replies : Link → List Reply
  | .connecting => []
  | .up conn => conn.replies
  | .ended replies => replies

def Link.setReplies : Link → List Reply → Link
  | .connecting, _ => .connecting
  | .up conn, replies => .up { conn with replies := replies }
  | .ended _, replies => .ended replies

/-- The descriptor under which the service knows the agent. -/
def Link.fd? : Link → Option Dns.Fd
  | .up conn => some conn.fd
  | _ => none

namespace Link

@[simp] theorem requests_setReplies (link : Link) (replies : List Reply) :
    (link.setReplies replies).requests = link.requests := by
  cases link <;> rfl

@[simp] theorem fd?_setReplies (link : Link) (replies : List Reply) :
    (link.setReplies replies).fd? = link.fd? := by
  cases link <;> rfl

theorem replies_setReplies {link : Link} {reply : Reply} {rest : List Reply}
    (hreplies : link.replies = reply :: rest) : (link.setReplies rest).replies = rest := by
  cases link with
  | connecting => cases hreplies
  | up conn => rfl
  | ended replies => rfl

end Link

namespace RouteSystem

def create : RouteSystem :=
  { routeLbs := fun _ => RouteMap.empty
    sent := 0
    dnsQueue := []
    msgs := []
    obuf := []
    cut := false
    blind := false
    torn := false
    link := .connecting
    service := Dns.DnsService.create }

/-- The requests that are queued or in flight. -/
def waiting (s : RouteSystem) : List Pull :=
  pullsOf s.link.requests ++ (pullsOf s.obuf ++ (s.msgs ++ s.dnsQueue))

def setRoutes (s : RouteSystem) (i : Fin 3) (map : RouteMap) : RouteSystem :=
  { s with routeLbs := Function.update s.routeLbs i map }

/-- `get_host_cb`, with the request that it sends to `dns_queue`. -/
def getHostCb (cfg : LbConfig) (s : RouteSystem) (i : Fin 3) (seq modid cmdid : BitVec 32)
    (accessCnt : Int) : Option RouteSystem :=
  match (s.routeLbs i).getHost cfg modid cmdid ⟨seq, modid, cmdid, 0, none⟩ accessCnt s.sent with
  | Except.error _ => none
  | Except.ok result =>
    match result.sent with
    | none => some (s.setRoutes i result.map)
    | some req =>
      some { s.setRoutes i result.map with
        sent := s.sent + 1
        dnsQueue := s.dnsQueue ++ [⟨s.sent, req⟩] }

/-- The messages that the size of a head is taken from: none of an empty buffer, the first one if
    it is whole, and more where what is left of the first is shorter. -/
def hits (s : RouteSystem) (hit : Nat) : Bool :=
  match s.obuf with
  | [] => decide (hit = 0)
  | .request _ :: rest =>
    if s.cut then decide (1 ≤ hit ∧ hit ≤ rest.length + 1) else decide (hit = 1)
  | .debris :: rest => decide (1 ≤ hit ∧ hit ≤ rest.length + 1)

/-- What is left of the first message that is hit: bytes that are not a message, or nothing where
    it was whole and had no body. -/
def remnant (s : RouteSystem) : List Parcel :=
  match s.obuf with
  | .request pull :: _ =>
    if s.cut = false ∧ pull.req.modid = 0 ∧ pull.req.cmdid = 0 then [] else [.debris]
  | _ => [.debris]

/-- A message into an empty buffer registers the write callback, in the place of
    `connection_succ` if that has not run. -/
def blinds (s : RouteSystem) : Bool :=
  match s.link, s.obuf with
  | .connecting, [] => true
  | _, _ => s.blind

/-- `send_message`. A refused body leaves the rest of the messages it has hit at the front, and its
    own head at the end. -/
def sendMessage (s : RouteSystem) (pull : Pull) : SendResult → Option RouteSystem
  | .accepted => some { s with obuf := s.obuf ++ [.request pull], blind := s.blinds }
  | .headRefused => some s
  | .bodyRefused hit =>
    if s.hits hit then
      if hit = 0 then some s
      else some { s with obuf := s.remnant ++ (s.obuf.drop hit ++ [.debris]) }
    else none

/-- The service sends a response. A refused body spoils responses that wait in its send buffer,
    if there are any. -/
def answer (s : RouteSystem) (conn : Connection) (reply : Reply) : SendResult → RouteSystem
  | .accepted => { s with link := .up { conn with replies := conn.replies ++ [reply] } }
  | .headRefused => { s with link := .up conn }
  | .bodyRefused hit => { s with link := .up conn, torn := s.torn || decide (hit ≠ 0) }

/-- `get_request` on the next message: the subscription of the connection, and the answer. On a
    garbled connection the message is not read as what it is. -/
def getRequest (s : RouteSystem) (hosts : List HostEntry) (result : SendResult) :
    Option RouteSystem :=
  match s.link with
  | .up conn =>
    match conn.requests with
    | [] => none
    | .debris :: rest => some { s with link := .up { conn with garbled := true, requests := rest } }
    | .request pull :: rest =>
      if conn.garbled then some { s with link := .up { conn with requests := rest } }
      else
        (s.service.serve conn.fd pull.req.mod).map fun service =>
          { s with service := service }.answer { conn with requests := rest }
            ⟨some pull.number, pull.req.modid, pull.req.cmdid, hosts⟩ result
  | _ => none

/-- `get_request` on what the service finds on a garbled connection. -/
def getGarbled (s : RouteSystem) (req : GetRouteRequest) (hosts : List HostEntry)
    (result : SendResult) : Option RouteSystem :=
  match s.link with
  | .up conn =>
    if conn.garbled then
      (s.service.serve conn.fd req.mod).map fun service =>
        { s with service := service }.answer conn ⟨none, req.modid, req.cmdid, hosts⟩ result
    else none
  | _ => none

/-- `deal_recv_route`. -/
def deal (cfg : LbConfig) (s : RouteSystem) (rsp : GetRouteResponse) : Option RouteSystem :=
  match routeIndex rsp.modid rsp.cmdid with
  | none => none
  | some i =>
    match (s.routeLbs i).updateHost cfg rsp.modid rsp.cmdid rsp with
    | Except.error _ => none
    | Except.ok map => some (s.setRoutes i map)

/-- The client reads from its socket. -/
def reads (s : RouteSystem) : Bool :=
  match s.link with
  | .connecting => false
  | _ => !s.blind

/-- One step; none where it cannot be taken, where the process dies of it, or where a host is used
    that was deleted. The steps of the service are those of its other connections. -/
def next (cfg : LbConfig) (s : RouteSystem) : RouteLabel → Option RouteSystem
  | .getHost i seq modid cmdid accessCnt => s.getHostCb cfg i seq modid cmdid accessCnt
  | .reportHost i modid cmdid ip port retcode ts =>
    match (s.routeLbs i).reportHost cfg modid cmdid ip port retcode ts with
    | Except.error _ => none
    | Except.ok (map, _) => some (s.setRoutes i map)
  | .recv => if s.msgs = [] then some { s with msgs := s.dnsQueue, dnsQueue := [] } else none
  | .sendMessage result =>
    match s.msgs with
    | [] => none
    | pull :: rest => { s with msgs := rest }.sendMessage pull result
  | .beginWrite =>
    match s.link, s.obuf with
    | .connecting, _ => none
    | _, [] => none
    | _, _ :: _ => some { s with cut := true }
  | .write =>
    match s.link, s.obuf with
    | .up conn, parcel :: rest =>
      some { s with
        obuf := rest
        cut := false
        link := .up { conn with requests := conn.requests ++ [parcel] } }
    | .ended _, _ :: rest => some { s with obuf := rest, cut := false }
    | _, _ => none
  | .drop =>
    match s.link with
    | .up conn => some { s with link := .ended conn.replies }
    | _ => none
  | .cleanConn half =>
    match s.link with
    | .connecting => if s.blind && !half then some { s with blind := false } else none
    | .up _ => none
    | .ended replies =>
      -- the half of a response is that of the next one, if the client has read it
      if half && (s.blind || replies.isEmpty) then none
      else some { s with link := .connecting, blind := false, torn := s.torn || half }
  | .connect fd =>
    match s.link with
    | .connecting =>
      (s.service.next (.createSubscribe fd)).map fun service =>
        { s with service := service, link := .up ⟨fd, s.cut, [], []⟩ }
    | _ => none
  | .getRequest hosts result => s.getRequest hosts result
  | .getGarbled req hosts result => s.getGarbled req hosts result
  | .push rsp result =>
    match s.link with
    | .up conn => some (s.answer conn ⟨none, rsp⟩ result)
    | _ => none
  | .dealRecvRoute =>
    match s.link.replies with
    | [] => none
    | reply :: rest =>
      if s.reads then { s with link := s.link.setReplies rest }.deal cfg reply.rsp else none
  | .dealGarbled rsp => if s.reads && s.torn then s.deal cfg rsp else none
  | .loseReply =>
    match s.link.replies with
    | [] => none
    | _ :: rest =>
      if s.reads && s.torn then some { s with link := s.link.setReplies rest } else none
  | .service label =>
    if s.link.fd? = some label.fd then none
    else (s.service.next label).map fun service => { s with service := service }

/-! ## What the operations do to the maps

Only `get_host` on a new key brings an object into a map. The other operations
keep an object, take it out, or give it hosts. -/

/-- Each object of the maps was there before, with hosts or without; one that had hosts still
    has them. -/
def Narrows (routes routes' : Fin 3 → RouteMap) : Prop :=
  ∀ i key entry', routes' i key = some entry' → ∃ entry, routes i key = some entry ∧
    entry'.request = entry.request ∧ entry'.status = entry.status ∧
    (entry'.lb.empty = true → entry.lb.empty = true)

theorem narrows_refl (routes : Fin 3 → RouteMap) : Narrows routes routes :=
  fun _ _ entry hentry => ⟨entry, hentry, rfl, rfl, id⟩

section Narrow

variable {routes : Fin 3 → RouteMap} {i : Fin 3} {key : BitVec 64}

theorem set_apply {entry : RouteEntry} {j : Fin 3} {key' : BitVec 64} :
    Function.update routes i ((routes i).set key entry) j key' =
      if j = i ∧ key' = key then some entry else routes j key' := by
  by_cases hi : j = i
  · subst hi
    rw [Function.update_self]
    by_cases hkey : key' = key
    · rw [if_pos ⟨rfl, hkey⟩, hkey]
      exact Function.update_self ..
    · rw [if_neg fun h => hkey h.2]
      exact Function.update_of_ne hkey ..
  · rw [Function.update_of_ne hi, if_neg fun h => hi h.1]

theorem narrows_set {entry : RouteEntry} {lb : LoadBalance} (hentry : routes i key = some entry)
    (hempty : lb.empty = true → entry.lb.empty = true) :
    Narrows routes (Function.update routes i ((routes i).set key { entry with lb := lb })) := by
  intro j key' entry' hentry'
  rw [set_apply] at hentry'
  split at hentry'
  · rename_i hsame
    obtain ⟨rfl, rfl⟩ := hsame
    cases hentry'
    exact ⟨entry, hentry, rfl, rfl, hempty⟩
  · exact ⟨entry', hentry', rfl, rfl, id⟩

theorem narrows_erase : Narrows routes (Function.update routes i ((routes i).erase key)) := by
  intro j key' entry' hentry'
  by_cases hi : j = i
  · subst hi
    rw [Function.update_self] at hentry'
    by_cases hkey : key' = key
    · rw [hkey, RouteMap.erase, Function.update_self] at hentry'
      cases hentry'
    · rw [RouteMap.erase, Function.update_of_ne hkey] at hentry'
      exact ⟨entry', hentry', rfl, rfl, id⟩
  · rw [Function.update_of_ne hi] at hentry'
    exact ⟨entry', hentry', rfl, rfl, id⟩

end Narrow

/-! ## What a step can do -/

section Cases

variable {cfg : LbConfig} {s s' : RouteSystem}

/-- `get_host` keeps the objects, or creates one and sends its request. -/
theorem getHostCb_cases {i : Fin 3} {seq modid cmdid : BitVec 32} {accessCnt : Int}
    (hget : s.getHostCb cfg i seq modid cmdid accessCnt = some s') :
    (∃ map, Narrows s.routeLbs (s.setRoutes i map).routeLbs ∧ s' = s.setRoutes i map) ∨
      (s.routeLbs i (pack modid cmdid) = none ∧
        s' = { s.setRoutes i ((s.routeLbs i).set (pack modid cmdid)
            ⟨LoadBalance.create modid cmdid accessCnt, .pulling, s.sent⟩) with
          sent := s.sent + 1
          dnsQueue := s.dnsQueue ++ [⟨s.sent, modid, cmdid⟩] }) := by
  unfold getHostCb at hget
  split at hget
  · cases hget
  · rename_i result hresult
    rcases RouteMap.getHost_cases hresult with
      ⟨entry, lb, hentry, chosen, hsent, hmap⟩ | ⟨hnone, hsent, hmap⟩
    · left
      simp only [hsent, hmap, Option.some.injEq] at hget
      refine ⟨_, ?_, hget.symm⟩
      exact narrows_set hentry fun h => chosen.empty ▸ h
    · right
      simp only [hsent, hmap, Option.some.injEq] at hget
      exact ⟨hnone, hget.symm⟩

theorem recv_cases (hnext : s.next cfg .recv = some s') :
    s.msgs = [] ∧ s' = { s with msgs := s.dnsQueue, dnsQueue := [] } := by
  simp only [next] at hnext
  split at hnext
  · rename_i hmsgs
    cases hnext
    exact ⟨hmsgs, rfl⟩
  · cases hnext

theorem pullsOf_remnant (s : RouteSystem) : pullsOf s.remnant = [] := by
  unfold remnant
  split
  · split <;> rfl
  · rfl

/-- A request is packed, or it is lost with those that the refused body has hit. -/
theorem sendMessage_cases {result : SendResult}
    (hnext : s.next cfg (.sendMessage result) = some s') :
    ∃ pull rest, s.msgs = pull :: rest ∧
      (result = .accepted ∧
          s' = { s with msgs := rest, obuf := s.obuf ++ [.request pull], blind := s.blinds } ∨
        result ≠ .accepted ∧ ∃ obuf, pullsOf obuf = pullsOf (s.obuf.drop result.hit) ∧
          s' = { s with msgs := rest, obuf := obuf }) := by
  simp only [next] at hnext
  split at hnext
  · cases hnext
  rename_i pull rest hmsgs
  refine ⟨pull, rest, hmsgs, ?_⟩
  cases result with
  | accepted =>
    cases hnext
    exact Or.inl ⟨rfl, rfl⟩
  | headRefused =>
    cases hnext
    exact Or.inr ⟨by simp, s.obuf, rfl, rfl⟩
  | bodyRefused hit =>
    refine Or.inr ⟨by simp, ?_⟩
    simp only [sendMessage] at hnext
    split at hnext
    · split at hnext
      · rename_i hzero
        cases hnext
        exact ⟨s.obuf, by rw [hzero]; rfl, rfl⟩
      · cases hnext
        exact ⟨_, by simp [SendResult.hit, pullsOf_remnant], rfl⟩
    · cases hnext

theorem beginWrite_cases (hnext : s.next cfg .beginWrite = some s') :
    s.link ≠ .connecting ∧ s' = { s with cut := true } := by
  simp only [next] at hnext
  split at hnext
  · cases hnext
  · cases hnext
  · rename_i hlink
    cases hnext
    exact ⟨hlink, rfl⟩

/-- A written message arrives, or is lost after the end. -/
theorem write_cases (hnext : s.next cfg .write = some s') :
    ∃ parcel rest, s.obuf = parcel :: rest ∧
      ((∃ conn, s.link = .up conn ∧ s' = { s with
          obuf := rest
          cut := false
          link := .up { conn with requests := conn.requests ++ [parcel] } }) ∨
        ∃ replies, s.link = .ended replies ∧ s' = { s with obuf := rest, cut := false }) := by
  simp only [next] at hnext
  split at hnext
  · rename_i conn parcel rest hlink hobuf
    cases hnext
    exact ⟨parcel, rest, hobuf, Or.inl ⟨conn, hlink, rfl⟩⟩
  · rename_i replies parcel rest hlink hobuf
    cases hnext
    exact ⟨parcel, rest, hobuf, Or.inr ⟨replies, hlink, rfl⟩⟩
  · cases hnext

theorem drop_cases (hnext : s.next cfg .drop = some s') :
    ∃ conn, s.link = .up conn ∧ s' = { s with link := .ended conn.replies } := by
  simp only [next] at hnext
  split at hnext
  · rename_i conn hlink
    cases hnext
    exact ⟨conn, hlink, rfl⟩
  · cases hnext

/-- The client connects anew, after the end or when the connect that it is blind for fails. -/
theorem cleanConn_cases {half : Bool} (hnext : s.next cfg (.cleanConn half) = some s') :
    (s.link = .connecting ∧ s.blind = true ∨ ∃ replies, s.link = .ended replies) ∧
      s' = { s with link := .connecting, blind := false, torn := s.torn || half } := by
  simp only [next] at hnext
  split at hnext
  · rename_i hlink
    split at hnext
    · rename_i hblind
      rw [Bool.and_eq_true, Bool.not_eq_true'] at hblind
      obtain ⟨hblind, rfl⟩ := hblind
      cases hnext
      refine ⟨Or.inl ⟨hlink, hblind⟩, ?_⟩
      rw [Bool.or_false, ← hlink]
    · cases hnext
  · cases hnext
  · rename_i replies hlink
    split at hnext
    · cases hnext
    · cases hnext
      exact ⟨Or.inr ⟨replies, hlink⟩, rfl⟩

theorem connect_cases {fd : Dns.Fd} (hnext : s.next cfg (.connect fd) = some s') :
    s.link = .connecting ∧ s.service.clients fd = none ∧
      s' = { s with
        service := s.service.setClient fd ⟨some ∅, .waiting⟩
        link := .up ⟨fd, s.cut, [], []⟩ } := by
  simp only [next] at hnext
  split at hnext
  · rename_i hlink
    obtain ⟨service, hservice, rfl⟩ := Option.map_eq_some_iff.mp hnext
    obtain ⟨hnone, rfl⟩ := Dns.DnsService.createSubscribe_cases hservice
    exact ⟨hlink, hnone, rfl⟩
  · cases hnext

/-- The response is sent, or lost; the client's input is spoiled only where other responses have
    been hit. -/
theorem answer_cases (s : RouteSystem) (conn : Connection) (reply : Reply) (result : SendResult) :
    ∃ replies torn, s.answer conn reply result =
        { s with link := .up { conn with replies := replies }, torn := torn } ∧
      (result = .accepted ∧ replies = conn.replies ++ [reply] ∨
        result ≠ .accepted ∧ replies = conn.replies) ∧ (result.hit = 0 → torn = s.torn) := by
  cases result with
  | accepted => exact ⟨_, s.torn, rfl, Or.inl ⟨rfl, rfl⟩, fun _ => rfl⟩
  | headRefused => exact ⟨conn.replies, s.torn, rfl, Or.inr ⟨by simp, rfl⟩, fun _ => rfl⟩
  | bodyRefused hit =>
    refine ⟨conn.replies, _, rfl, Or.inr ⟨by simp, rfl⟩, fun hzero => ?_⟩
    have hhit : hit = 0 := hzero
    simp [hhit]

/-- A message is served, or it is not read as what it is. -/
theorem getRequest_cases {hosts : List HostEntry} {result : SendResult}
    (hserve : s.getRequest hosts result = some s') :
    ∃ conn parcel rest, s.link = .up conn ∧ conn.requests = parcel :: rest ∧
      (parcel = .debris ∧
          s' = { s with link := .up { conn with garbled := true, requests := rest } } ∨
        (∃ pull, parcel = .request pull ∧ conn.garbled = true ∧
          s' = { s with link := .up { conn with requests := rest } }) ∨
        ∃ pull, parcel = .request pull ∧ conn.garbled = false ∧
          ∃ service, s.service.serve conn.fd pull.req.mod = some service ∧
            s' = { s with service := service }.answer { conn with requests := rest }
              ⟨some pull.number, pull.req.modid, pull.req.cmdid, hosts⟩ result) := by
  unfold getRequest at hserve
  split at hserve
  · rename_i conn hlink
    split at hserve
    · cases hserve
    · rename_i rest hrequests
      cases hserve
      exact ⟨conn, _, rest, hlink, hrequests, Or.inl ⟨rfl, rfl⟩⟩
    · rename_i pull rest hrequests
      refine ⟨conn, _, rest, hlink, hrequests, Or.inr ?_⟩
      split at hserve
      · rename_i hgarbled
        cases hserve
        exact Or.inl ⟨pull, rfl, hgarbled, rfl⟩
      · rename_i hclear
        obtain ⟨service, hservice, rfl⟩ := Option.map_eq_some_iff.mp hserve
        exact Or.inr ⟨pull, rfl, Bool.not_eq_true _ ▸ hclear, service, hservice, rfl⟩
  · cases hserve

theorem getGarbled_cases {req : GetRouteRequest} {hosts : List HostEntry} {result : SendResult}
    (hserve : s.getGarbled req hosts result = some s') :
    ∃ conn, s.link = .up conn ∧ conn.garbled = true ∧
      ∃ service, s.service.serve conn.fd req.mod = some service ∧
        s' = { s with service := service }.answer conn ⟨none, req.modid, req.cmdid, hosts⟩
          result := by
  unfold getGarbled at hserve
  split at hserve
  · rename_i conn hlink
    split at hserve
    · rename_i hgarbled
      obtain ⟨service, hservice, rfl⟩ := Option.map_eq_some_iff.mp hserve
      exact ⟨conn, hlink, hgarbled, service, hservice, rfl⟩
    · cases hserve
  · cases hserve

theorem push_cases {rsp : GetRouteResponse} {result : SendResult}
    (hnext : s.next cfg (.push rsp result) = some s') :
    ∃ conn, s.link = .up conn ∧ s' = s.answer conn ⟨none, rsp⟩ result := by
  simp only [next] at hnext
  split at hnext
  · rename_i conn hlink
    cases hnext
    exact ⟨conn, hlink, rfl⟩
  · cases hnext

theorem service_cases {label : Dns.ServiceLabel} (hnext : s.next cfg (.service label) = some s') :
    s.link.fd? ≠ some label.fd ∧ ∃ service, s.service.next label = some service ∧
      s' = { s with service := service } := by
  simp only [next] at hnext
  split at hnext
  · cases hnext
  · rename_i hother
    obtain ⟨service, hservice, rfl⟩ := Option.map_eq_some_iff.mp hnext
    exact ⟨hother, service, hservice, rfl⟩

theorem reportHost_cases {i : Fin 3} {modid cmdid ip port retcode ts : BitVec 32}
    (hnext : s.next cfg (.reportHost i modid cmdid ip port retcode ts) = some s') :
    ∃ map, Narrows s.routeLbs (s.setRoutes i map).routeLbs ∧ s' = s.setRoutes i map := by
  simp only [next] at hnext
  split at hnext
  · cases hnext
  · rename_i map report hreport
    cases hnext
    refine ⟨map, ?_, rfl⟩
    rcases RouteMap.reportHost_cases hreport with rfl | ⟨entry, lb, hentry, hlb, rfl⟩
    · simp only [setRoutes, Function.update_eq_self]
      exact narrows_refl _
    · exact narrows_set hentry fun h => LoadBalance.report_empty hlb ▸ h

/-- The key of a response has hosts after it in the map of its index, or is not in that map. -/
theorem deal_cases {rsp : GetRouteResponse} (hdeal : s.deal cfg rsp = some s') :
    ∃ i map, routeIndex rsp.modid rsp.cmdid = some i ∧
      Narrows s.routeLbs (s.setRoutes i map).routeLbs ∧
      (∀ entry, map (pack rsp.modid rsp.cmdid) = some entry → entry.lb.empty = false) ∧
      s' = s.setRoutes i map := by
  unfold deal at hdeal
  split at hdeal
  · cases hdeal
  rename_i i hindex
  split at hdeal
  · cases hdeal
  rename_i map hupdate
  cases hdeal
  refine ⟨i, map, hindex, ?_, ?_, rfl⟩
  · rcases RouteMap.updateHost_cases hupdate with ⟨-, rfl⟩ | rfl | ⟨entry, lb, hentry, hlb, rfl⟩
    · simp only [setRoutes, Function.update_eq_self]
      exact narrows_refl _
    · exact narrows_erase
    · apply narrows_set hentry
      intro h
      rw [LoadBalance.update_not_empty hlb] at h
      cases h
  · intro entry hentry
    rcases RouteMap.updateHost_cases hupdate with ⟨hnone, rfl⟩ | rfl | ⟨old, lb, -, hlb, rfl⟩
    · rw [hnone] at hentry
      cases hentry
    · rw [RouteMap.erase, Function.update_self] at hentry
      cases hentry
    · rw [RouteMap.set, Function.update_self] at hentry
      cases hentry
      exact LoadBalance.update_not_empty hlb

/-- The next response is taken, and applied. -/
theorem dealRecvRoute_cases (hnext : s.next cfg .dealRecvRoute = some s') :
    ∃ reply rest, s.link.replies = reply :: rest ∧ s.reads = true ∧
      { s with link := s.link.setReplies rest }.deal cfg reply.rsp = some s' := by
  simp only [next] at hnext
  split at hnext
  · cases hnext
  · rename_i reply rest hreplies
    split at hnext
    · rename_i hreads
      exact ⟨reply, rest, hreplies, hreads, hnext⟩
    · cases hnext

theorem dealGarbled_cases {rsp : GetRouteResponse}
    (hnext : s.next cfg (.dealGarbled rsp) = some s') :
    s.reads = true ∧ s.torn = true ∧ s.deal cfg rsp = some s' := by
  simp only [next] at hnext
  split at hnext
  · rename_i hboth
    rw [Bool.and_eq_true] at hboth
    exact ⟨hboth.1, hboth.2, hnext⟩
  · cases hnext

theorem loseReply_cases (hnext : s.next cfg .loseReply = some s') :
    ∃ reply rest, s.link.replies = reply :: rest ∧ s.reads = true ∧ s.torn = true ∧
      s' = { s with link := s.link.setReplies rest } := by
  simp only [next] at hnext
  split at hnext
  · cases hnext
  · rename_i reply rest hreplies
    split at hnext
    · rename_i hboth
      rw [Bool.and_eq_true] at hboth
      cases hnext
      exact ⟨reply, rest, hreplies, hboth.1, hboth.2, rfl⟩
    · cases hnext

end Cases

end RouteSystem

end LarsSystem.Agent
