import LarsSystem.HostCredit
import LarsSystem.Transition

/-!
# The calls of one `lars_client` and the answers it waits for

`get_host` numbers its requests, and takes the answers as they come: the one with
its own number ends the call, one with a smaller number is left behind by the
`do` loop. The datagrams between API and agent may be delayed, overtake each
other, come twice or get lost, so that the answers to any number of earlier
calls, of this module and of others, may arrive while a call waits. They change
nothing: as long as the numbers do not wrap, each of them is smaller than the
number waited for.

The state remembers, for the statements only, the call that each request and
each answer belongs to, and with each call that returned the ip and port of its
caller before and after. A sum of `modid` and `cmdid` whose remainder is negative
makes `get_host` take an integer beside `_sockfd` for its socket; the state leaves
open whether that is a descriptor of the client's or none that can send.
-/

namespace LarsSystem.Agent

open LarsSystem.MachineWord
open LarsSystem.Transition

/-- A request that was sent, and the call that sent it. -/
structure HostRequest where
  call : Nat
  sock : Fin 3
  req : GetHostRequest

/-- An answer of the agent, and the call whose request it answers. -/
structure HostReply where
  call : Nat
  sock : Fin 3
  rsp : GetHostResponse

/-- A call that returned, with ip and port of its caller before and after. -/
structure HostReturn where
  call : Nat
  ret : BitVec 32
  before : String × CInt
  after : String × CInt

structure HostCalls where
  client : LarsClient
  calls : Nat
  address : String × CInt
  requests : List HostRequest
  replies : List HostReply
  waiting : Option HostRequest
  returned : List HostReturn

/-- `beside` is the socket whose descriptor stands where a negative index points, if any does. A
    reply is named by its place in the list of all replies, and stays there. -/
inductive HostLabel where
  | getHost (modid cmdid : CInt) (address : String × CInt) (beside : Option (Fin 3))
      (sendtoOk : Bool)
  | getHostCb (request : Nat) (retcode : BitVec 32) (host : Option HostEntry)
  | recvfrom (reply : Nat)
  | recvfromFails

/-- An answer with the number and the module of the request. -/
def HostRequest.reply (request : HostRequest) (retcode : BitVec 32) (host : Option HostEntry) :
    HostReply :=
  ⟨request.call, request.sock,
    ⟨request.req.seq, request.req.modid, request.req.cmdid, retcode, host⟩⟩

namespace HostCalls

def start : HostCalls := ⟨⟨0⟩, 0, ("", 0), [], [], none, []⟩

/-- `_seqid++`, for a call that is made with this ip and port. -/
def begin (s : HostCalls) (address : String × CInt) : HostCalls :=
  { s with
    client := ⟨s.client.seqid + 1⟩
    calls := s.calls + 1
    address := address }

/-- The call returns; `out` is what it sets ip and port to, if it does. -/
def finish (s : HostCalls) (call : Nat) (ret : BitVec 32) (out : Option (String × CInt)) :
    HostCalls :=
  { s with
    waiting := none
    address := out.getD s.address
    returned := s.returned ++ [⟨call, ret, s.address, out.getD s.address⟩] }

/-- One turn of the `do` loop, and the rest of `get_host` if it is the last one. -/
def receive (inetNtoa : CInt → String) (s : HostCalls) (request : HostRequest)
    (received : Received) : HostCalls :=
  match (⟨request.req.seq⟩ : LarsClient).getHost inetNtoa request.req.modid request.req.cmdid
    [received] with
  | none => s
  | some (ret, out) => s.finish request.call ret out

/-- What a label leads to; `none` where it cannot happen. -/
def next (inetNtoa : CInt → String) (s : HostCalls) : HostLabel → Option HostCalls
  | .getHost modid cmdid address beside sendtoOk =>
    match s.waiting with
    | some _ => none
    | none =>
      match (slot (LarsClient.getHostIndex modid cmdid)).or beside, sendtoOk with
      | some sock, true =>
        let request : HostRequest := ⟨s.calls, sock, ⟨s.client.seqid, modid, cmdid⟩⟩
        some { s.begin address with
          requests := s.requests ++ [request]
          waiting := some request }
      | _, _ => some ((s.begin address).finish s.calls RET_SYSTEM_ERROR none)
  | .getHostCb request retcode host =>
    (s.requests[request]?).map fun request =>
      { s with replies := s.replies ++ [request.reply retcode host] }
  | .recvfrom reply =>
    match s.waiting, s.replies[reply]? with
    | some request, some reply =>
      if reply.sock = request.sock then
        some (s.receive inetNtoa request (.packet ID_GetHostResponse (some reply.rsp)))
      else none
    | _, _ => none
  | .recvfromFails => s.waiting.map fun request => s.receive inetNtoa request .failed

end HostCalls

/-! ## The code of both ends -/

/-- The agent answers with the number and the module of the request. -/
theorem RouteLbs.getHostCb_reply {cfg : LbConfig} {rLb : RouteLbs} {i : Fin 3}
    {request : HostRequest} {accessCnt : Int} {number : Nat} {answer : HostAnswer}
    (hget : rLb.getHostCb cfg i request.req accessCnt number = Except.ok answer) :
    answer.rsp = (request.reply answer.rsp.retcode answer.rsp.host).rsp := by
  unfold getHostCb at hget
  split at hget
  · cases hget
  · rename_i result hresult
    cases hget
    unfold RouteMap.getHost at hresult
    simp only at hresult
    split at hresult
    · split at hresult
      · split at hresult <;> cases hresult
        rfl
      · split at hresult <;> cases hresult
        rfl
    · cases hresult
      rfl

namespace LarsClient

variable {inetNtoa : CInt → String} {c : LarsClient} {modid cmdid : CInt}

theorem getHost_late {rsp : GetHostResponse} (hlate : rsp.seq < c.seqid) :
    c.getHost inetNtoa modid cmdid [.packet ID_GetHostResponse (some rsp)] = none := by
  unfold getHost
  simp only [awaitResponse, ne_eq, not_true_eq_false, if_false, if_pos hlate, Option.map_none]

theorem getHost_taken {rsp : GetHostResponse} (htaken : ¬ rsp.seq < c.seqid) :
    c.getHost inetNtoa modid cmdid [.packet ID_GetHostResponse (some rsp)] =
      some (takeResponse inetNtoa c.seqid modid cmdid rsp) := by
  unfold getHost
  simp only [awaitResponse, ne_eq, not_true_eq_false, if_false, if_neg htaken, Option.map_some]

/-- What a call is given by a response it took. -/
theorem takeResponse_cases (seq : BitVec 32) (rsp : GetHostResponse) :
    (rsp.seq = seq ∧ rsp.retcode = RET_SUCC ∧
      takeResponse inetNtoa seq modid cmdid rsp =
        (RET_SUCC, some (inetNtoa (rsp.host.getD ⟨0, 0⟩).ip, (rsp.host.getD ⟨0, 0⟩).port))) ∨
    ∃ ret, ret ≠ RET_SUCC ∧ takeResponse inetNtoa seq modid cmdid rsp = (ret, none) := by
  unfold takeResponse
  split_ifs with hother hsucc
  · exact Or.inr ⟨RET_SYSTEM_ERROR, by decide, rfl⟩
  · exact Or.inl ⟨of_not_not fun hseq => hother (Or.inl hseq), hsucc, by rw [hsucc]; rfl⟩
  · exact Or.inr ⟨rsp.retcode, hsucc, rfl⟩

end LarsClient

/-! ## What a run keeps -/

/-- The number of a call in its messages. -/
def seqOf (call : Nat) : BitVec 32 := BitVec.ofNat 32 call

theorem seqOf_lt {call call' : Nat} (hcall : call < 2 ^ 32) (hcall' : call' < 2 ^ 32) :
    seqOf call < seqOf call' ↔ call < call' := by
  unfold seqOf
  rw [BitVec.lt_def, BitVec.toNat_ofNat, BitVec.toNat_ofNat, Nat.mod_eq_of_lt hcall,
    Nat.mod_eq_of_lt hcall']

/-- The call has the host of an answer to its own request, or leaves ip and port as they were. -/
def HostReturn.Right (inetNtoa : CInt → String) (replies : List HostReply) (r : HostReturn) :
    Prop :=
  (r.ret = RET_SUCC → ∃ reply ∈ replies, reply.call = r.call ∧ reply.rsp.retcode = RET_SUCC ∧
    r.after = (inetNtoa (reply.rsp.host.getD ⟨0, 0⟩).ip, (reply.rsp.host.getD ⟨0, 0⟩).port)) ∧
  (r.ret ≠ RET_SUCC → r.after = r.before)

theorem HostReturn.Right.mono {inetNtoa : CInt → String} {replies : List HostReply}
    {r : HostReturn} (hright : r.Right inetNtoa replies) (more : List HostReply) :
    r.Right inetNtoa (replies ++ more) := by
  refine ⟨?_, hright.2⟩
  intro hsucc
  obtain ⟨reply, hreply, hanswer⟩ := hright.1 hsucc
  exact ⟨reply, List.mem_append_left _ hreply, hanswer⟩

namespace HostCalls

/-- Requests have the numbers of their calls and answers those of their requests; a call that waits
    is the latest. -/
structure Inv (inetNtoa : CInt → String) (s : HostCalls) : Prop where
  seqid : s.client.seqid = seqOf s.calls
  numbered : ∀ r ∈ s.requests, r.call < s.calls ∧ r.req.seq = seqOf r.call
  distinct : ∀ r ∈ s.requests, ∀ r' ∈ s.requests, r.call = r'.call → r = r'
  answers : ∀ reply ∈ s.replies, ∃ r ∈ s.requests,
    reply = r.reply reply.rsp.retcode reply.rsp.host
  waits : ∀ r, s.waiting = some r → r ∈ s.requests ∧ r.call + 1 = s.calls
  returned : ∀ r ∈ s.returned, r.Right inetNtoa s.replies

variable {inetNtoa : CInt → String} {s t : HostCalls} {request : HostRequest}

theorem inv_start : start.Inv inetNtoa where
  seqid := rfl
  numbered := fun r hr => absurd hr List.not_mem_nil
  distinct := fun r hr => absurd hr List.not_mem_nil
  answers := fun reply hreply => absurd hreply List.not_mem_nil
  waits := fun r hr => by cases hr
  returned := fun r hr => absurd hr List.not_mem_nil

/-- **Every answer but its own is late for a call that waits.** -/
theorem Inv.late_iff (hinv : s.Inv inetNtoa) (hfew : s.calls < 2 ^ 32)
    (hwaiting : s.waiting = some request) {reply : HostReply} (hreply : reply ∈ s.replies) :
    reply.rsp.seq < request.req.seq ↔ reply.call ≠ request.call := by
  obtain ⟨hrequest, hlatest⟩ := hinv.waits request hwaiting
  obtain ⟨sent, hsent, hanswer⟩ := hinv.answers reply hreply
  obtain ⟨hcall, hseq⟩ := hinv.numbered sent hsent
  obtain ⟨-, hseq'⟩ := hinv.numbered request hrequest
  have hreplyCall : reply.call = sent.call := by rw [hanswer]; rfl
  have hreplySeq : reply.rsp.seq = sent.req.seq := by rw [hanswer]; rfl
  rw [hreplySeq, hseq, hseq', seqOf_lt (by omega) (by omega), hreplyCall]
  omega

/-- The answers to the call that waits have its module. -/
theorem Inv.own_reply (hinv : s.Inv inetNtoa) (hwaiting : s.waiting = some request)
    {reply : HostReply} (hreply : reply ∈ s.replies) (hown : reply.call = request.call) :
    reply = request.reply reply.rsp.retcode reply.rsp.host := by
  obtain ⟨sent, hsent, hanswer⟩ := hinv.answers reply hreply
  have hcall : sent.call = request.call := by
    rw [← hown, hanswer]
    rfl
  rw [← hinv.distinct sent hsent request (hinv.waits request hwaiting).1 hcall]
  exact hanswer

/-! ### Single steps -/

theorem Inv.begin (hinv : s.Inv inetNtoa) (hidle : s.waiting = none) (address : String × CInt) :
    (s.begin address).Inv inetNtoa where
  seqid := by
    change s.client.seqid + 1 = seqOf (s.calls + 1)
    rw [hinv.seqid, seqOf, seqOf, BitVec.ofNat_add]
    rfl
  numbered := fun r hr =>
    ⟨Nat.lt_succ_of_lt (hinv.numbered r hr).1, (hinv.numbered r hr).2⟩
  distinct := hinv.distinct
  answers := hinv.answers
  waits := fun r hr => by
    change s.waiting = some r at hr
    rw [hidle] at hr
    cases hr
  returned := hinv.returned

theorem Inv.finish (hinv : s.Inv inetNtoa) {call : Nat} {ret : BitVec 32}
    {out : Option (String × CInt)}
    (hright : HostReturn.Right inetNtoa s.replies ⟨call, ret, s.address, out.getD s.address⟩) :
    (s.finish call ret out).Inv inetNtoa where
  seqid := hinv.seqid
  numbered := hinv.numbered
  distinct := hinv.distinct
  answers := hinv.answers
  waits := fun r hr => by cases hr
  returned := fun r hr => by
    rcases List.mem_append.mp hr with hr | hr
    · exact hinv.returned r hr
    · rw [List.mem_singleton.mp hr]
      exact hright

/-- A call that fails leaves ip and port alone. -/
theorem right_none {replies : List HostReply} {call : Nat} {ret : BitVec 32}
    {address : String × CInt} (hret : ret ≠ RET_SUCC) :
    HostReturn.Right inetNtoa replies ⟨call, ret, address, none.getD address⟩ :=
  ⟨fun hsucc => absurd hsucc hret, fun _ => rfl⟩

theorem Inv.sent (hinv : s.Inv inetNtoa) (hidle : s.waiting = none) (address : String × CInt)
    (sock : Fin 3) (modid cmdid : CInt) :
    Inv inetNtoa
      { s.begin address with
        requests := s.requests ++ [⟨s.calls, sock, ⟨s.client.seqid, modid, cmdid⟩⟩]
        waiting := some ⟨s.calls, sock, ⟨s.client.seqid, modid, cmdid⟩⟩ } where
  seqid := (hinv.begin hidle address).seqid
  numbered := fun r hr => by
    rcases List.mem_append.mp hr with hr | hr
    · exact (hinv.begin hidle address).numbered r hr
    · rw [List.mem_singleton.mp hr]
      exact ⟨Nat.lt_succ_self _, hinv.seqid⟩
  distinct := fun r hr r' hr' hcall => by
    rcases List.mem_append.mp hr with hr | hr
    · rcases List.mem_append.mp hr' with hr' | hr'
      · exact hinv.distinct r hr r' hr' hcall
      · have hlt := (hinv.numbered r hr).1
        rw [hcall, List.mem_singleton.mp hr'] at hlt
        exact absurd hlt (Nat.lt_irrefl _)
    · rcases List.mem_append.mp hr' with hr' | hr'
      · have hlt := (hinv.numbered r' hr').1
        rw [← hcall, List.mem_singleton.mp hr] at hlt
        exact absurd hlt (Nat.lt_irrefl _)
      · rw [List.mem_singleton.mp hr, List.mem_singleton.mp hr']
  answers := fun reply hreply => by
    obtain ⟨r, hr, hanswer⟩ := hinv.answers reply hreply
    exact ⟨r, List.mem_append_left _ hr, hanswer⟩
  waits := fun r hr => by
    cases hr
    exact ⟨List.mem_append_right _ List.mem_cons_self, rfl⟩
  returned := hinv.returned

theorem Inv.answered (hinv : s.Inv inetNtoa) (hrequest : request ∈ s.requests)
    (retcode : BitVec 32) (host : Option HostEntry) :
    Inv inetNtoa { s with replies := s.replies ++ [request.reply retcode host] } where
  seqid := hinv.seqid
  numbered := hinv.numbered
  distinct := hinv.distinct
  answers := fun reply hreply => by
    rcases List.mem_append.mp hreply with hreply | hreply
    · exact hinv.answers reply hreply
    · refine ⟨request, hrequest, ?_⟩
      rw [List.mem_singleton.mp hreply]
      rfl
  waits := hinv.waits
  returned := fun r hr => (hinv.returned r hr).mono _

theorem Inv.failed (hinv : s.Inv inetNtoa) : (s.receive inetNtoa request .failed).Inv inetNtoa :=
  hinv.finish (right_none (by decide))

/-- The `do` loop goes on behind a late answer. -/
theorem receive_late {rsp : GetHostResponse} (hlate : rsp.seq < request.req.seq) :
    s.receive inetNtoa request (.packet ID_GetHostResponse (some rsp)) = s := by
  unfold receive
  rw [LarsClient.getHost_late hlate]

theorem receive_taken {rsp : GetHostResponse} (htaken : ¬ rsp.seq < request.req.seq)
    {ret : BitVec 32} {out : Option (String × CInt)}
    (htake : LarsClient.takeResponse inetNtoa request.req.seq request.req.modid
      request.req.cmdid rsp = (ret, out)) :
    s.receive inetNtoa request (.packet ID_GetHostResponse (some rsp)) =
      s.finish request.call ret out := by
  unfold receive
  rw [LarsClient.getHost_taken htaken, htake]

theorem Inv.received (hinv : s.Inv inetNtoa) (hfew : s.calls < 2 ^ 32)
    (hwaiting : s.waiting = some request) {reply : HostReply} (hreply : reply ∈ s.replies) :
    (s.receive inetNtoa request (.packet ID_GetHostResponse (some reply.rsp))).Inv inetNtoa := by
  by_cases hlate : reply.rsp.seq < request.req.seq
  · rw [receive_late hlate]
    exact hinv
  · rcases @LarsClient.takeResponse_cases inetNtoa request.req.modid request.req.cmdid
      request.req.seq reply.rsp with ⟨-, hsucc, htake⟩ | ⟨ret, hret, htake⟩
    · have hown : reply.call = request.call :=
        of_not_not fun hother => hlate ((hinv.late_iff hfew hwaiting hreply).mpr hother)
      rw [receive_taken hlate htake]
      exact hinv.finish ⟨fun _ => ⟨reply, hreply, hown, hsucc, rfl⟩, fun hne => absurd rfl hne⟩
    · rw [receive_taken hlate htake]
      exact hinv.finish (right_none hret)

/-! ### Runs -/

theorem receive_calls (received : Received) :
    (s.receive inetNtoa request received).calls = s.calls := by
  unfold receive
  split <;> rfl

/-- What a label can lead to. -/
theorem next_cases {label : HostLabel} (hnext : s.next inetNtoa label = some t) :
    (∃ address sock modid cmdid, s.waiting = none ∧ t =
      { s.begin address with
        requests := s.requests ++ [⟨s.calls, sock, ⟨s.client.seqid, modid, cmdid⟩⟩]
        waiting := some ⟨s.calls, sock, ⟨s.client.seqid, modid, cmdid⟩⟩ }) ∨
    (∃ address, s.waiting = none ∧
      t = (s.begin address).finish s.calls RET_SYSTEM_ERROR none) ∨
    (∃ request ∈ s.requests, ∃ retcode host,
      t = { s with replies := s.replies ++ [request.reply retcode host] }) ∨
    (∃ request, s.waiting = some request ∧ ∃ reply ∈ s.replies,
      t = s.receive inetNtoa request (.packet ID_GetHostResponse (some reply.rsp))) ∨
    ∃ request, s.waiting = some request ∧ t = s.receive inetNtoa request .failed := by
  cases label with
  | getHost modid cmdid address beside sendtoOk =>
    simp only [next] at hnext
    split at hnext
    · cases hnext
    · rename_i hidle
      split at hnext
      · rename_i sock _
        cases hnext
        exact Or.inl ⟨address, sock, modid, cmdid, hidle, rfl⟩
      · cases hnext
        exact Or.inr (Or.inl ⟨address, hidle, rfl⟩)
  | getHostCb number retcode host =>
    obtain ⟨request, hrequest, rfl⟩ := Option.map_eq_some_iff.mp hnext
    exact Or.inr (Or.inr (Or.inl ⟨request, List.mem_of_getElem? hrequest, retcode, host, rfl⟩))
  | recvfrom number =>
    simp only [next] at hnext
    split at hnext
    · rename_i request reply hwaiting hreply
      split_ifs at hnext
      cases hnext
      exact Or.inr (Or.inr (Or.inr (Or.inl
        ⟨request, hwaiting, reply, List.mem_of_getElem? hreply, rfl⟩)))
    · cases hnext
  | recvfromFails =>
    obtain ⟨request, hwaiting, rfl⟩ := Option.map_eq_some_iff.mp hnext
    exact Or.inr (Or.inr (Or.inr (Or.inr ⟨request, hwaiting, rfl⟩)))

theorem next_calls {label : HostLabel} (hnext : s.next inetNtoa label = some t) :
    s.calls ≤ t.calls := by
  rcases next_cases hnext with ⟨_, _, _, _, -, rfl⟩ | ⟨_, -, rfl⟩ | ⟨_, -, _, _, rfl⟩ |
    ⟨_, -, _, -, rfl⟩ | ⟨_, -, rfl⟩
  · exact Nat.le_succ _
  · exact Nat.le_succ _
  · exact Nat.le_refl _
  · exact (receive_calls _).ge
  · exact (receive_calls _).ge

theorem Inv.next {label : HostLabel} (hinv : s.Inv inetNtoa) (hfew : s.calls < 2 ^ 32)
    (hnext : s.next inetNtoa label = some t) : t.Inv inetNtoa := by
  rcases next_cases hnext with ⟨address, sock, modid, cmdid, hidle, rfl⟩ |
    ⟨address, hidle, rfl⟩ | ⟨request, hrequest, retcode, host, rfl⟩ |
    ⟨request, hwaiting, reply, hreply, rfl⟩ | ⟨request, hwaiting, rfl⟩
  · exact hinv.sent hidle address sock modid cmdid
  · exact (hinv.begin hidle address).finish (right_none (by decide))
  · exact hinv.answered hrequest retcode host
  · exact hinv.received hfew hwaiting hreply
  · exact hinv.failed

theorem run_inv {labels : List HostLabel} (run : Run (ofOption (next inetNtoa)) start labels t)
    (hfew : t.calls < 2 ^ 32) : t.Inv inetNtoa := by
  have hkept : ∀ s label t, (s.calls < 2 ^ 32 → s.Inv inetNtoa) →
      ofOption (HostCalls.next inetNtoa) s label t → t.calls < 2 ^ 32 → t.Inv inetNtoa := by
    intro s label t hinv hnext hfew
    have hfew' : s.calls < 2 ^ 32 := Nat.lt_of_le_of_lt (next_calls hnext) hfew
    exact (hinv hfew').next hfew' hnext
  exact run.invariant hkept (fun _ => inv_start) hfew

/-! ## Calls and their answers -/

/-- **What a client is promised**: the calls that returned did so with the host of an answer to
    their own request, or left ip and port alone; an answer to another request, when it arrives,
    changes nothing at all, and the first one to its own request ends the call as the agent
    says. -/
structure Matches (inetNtoa : CInt → String) (s : HostCalls) : Prop where
  returned : ∀ r ∈ s.returned, r.Right inetNtoa s.replies
  skips : ∀ request number reply, s.waiting = some request → s.replies[number]? = some reply →
    reply.sock = request.sock → reply.call ≠ request.call →
      s.next inetNtoa (.recvfrom number) = some s
  takes : ∀ request number reply, s.waiting = some request → s.replies[number]? = some reply →
    reply.sock = request.sock → reply.call = request.call →
      s.next inetNtoa (.recvfrom number) = some (s.finish request.call reply.rsp.retcode
        (if reply.rsp.retcode = RET_SUCC then
          some (inetNtoa (reply.rsp.host.getD ⟨0, 0⟩).ip, (reply.rsp.host.getD ⟨0, 0⟩).port)
        else none))

theorem next_recvfrom {number : Nat} {reply : HostReply} (hwaiting : s.waiting = some request)
    (hreply : s.replies[number]? = some reply) (hsock : reply.sock = request.sock) :
    s.next inetNtoa (.recvfrom number) =
      some (s.receive inetNtoa request (.packet ID_GetHostResponse (some reply.rsp))) := by
  simp only [next, hwaiting, hreply, if_pos hsock]

/-- An answer to the request itself is taken for what it says. -/
theorem takeResponse_reply (request : HostRequest) (retcode : BitVec 32) (host : Option HostEntry) :
    LarsClient.takeResponse inetNtoa request.req.seq request.req.modid request.req.cmdid
        (request.reply retcode host).rsp =
      (retcode, if retcode = RET_SUCC then
          some (inetNtoa (host.getD ⟨0, 0⟩).ip, (host.getD ⟨0, 0⟩).port)
        else none) := by
  have hsame : ¬ ((request.reply retcode host).rsp.seq ≠ request.req.seq ∨
      (request.reply retcode host).rsp.modid ≠ request.req.modid ∨
      (request.reply retcode host).rsp.cmdid ≠ request.req.cmdid) :=
    fun hother => hother.elim (fun hne => hne rfl) fun hother =>
      hother.elim (fun hne => hne rfl) fun hne => hne rfl
  unfold LarsClient.takeResponse
  rw [if_neg hsame]
  change (if retcode = RET_SUCC then _ else _) = _
  split_ifs <;> rfl

theorem Inv.matches (hinv : s.Inv inetNtoa) (hfew : s.calls < 2 ^ 32) : s.Matches inetNtoa where
  returned := hinv.returned
  skips := fun request number reply hwaiting hreply hsock hother => by
    have hlate := (hinv.late_iff hfew hwaiting (List.mem_of_getElem? hreply)).mpr hother
    rw [next_recvfrom hwaiting hreply hsock, receive_late hlate]
  takes := fun request number reply hwaiting hreply hsock hown => by
    have hmem := List.mem_of_getElem? hreply
    have htaken : ¬ reply.rsp.seq < request.req.seq :=
      fun hlate => (hinv.late_iff hfew hwaiting hmem).mp hlate hown
    have hanswer := hinv.own_reply hwaiting hmem hown
    rw [next_recvfrom hwaiting hreply hsock]
    refine congrArg some (receive_taken htaken ?_)
    rw [congrArg HostReply.rsp hanswer]
    exact takeResponse_reply request reply.rsp.retcode reply.rsp.host

/-- **Answers are matched to requests** in every run of fewer than 2^32 calls, whatever becomes of
    the datagrams on the way. -/
theorem run_matches {inetNtoa : CInt → String} {t : HostCalls} {labels : List HostLabel}
    (run : Run (ofOption (next inetNtoa)) start labels t) (hfew : t.calls < 2 ^ 32) :
    t.Matches inetNtoa :=
  (run_inv run hfew).matches hfew

/-- A call fails, and its answer arrives while the next call for the module waits. -/
def lateAnswer : List HostLabel :=
  [.getHost 1 2 ("", 0) none true, .getHostCb 0 RET_SUCC (some ⟨0x0100007F, 8080⟩),
    .recvfromFails, .getHost 1 2 ("", 0) none true, .recvfrom 0,
    .getHostCb 1 RET_SUCC (some ⟨0x0200007F, 8081⟩), .recvfrom 1]

theorem run_matches_lateAnswer :
    ∃ t, Run (ofOption (next dotted)) start lateAnswer t ∧
      t.returned = [⟨0, RET_SYSTEM_ERROR, ("", 0), ("", 0)⟩,
        ⟨1, RET_SUCC, ("", 0), (dotted 0x0200007F, 8081)⟩] ∧ t.Matches dotted := by
  have hruns : ∃ t, lateAnswer.foldlM (next dotted) start = some t ∧ t.calls = 2 ∧
      t.returned = [⟨0, RET_SYSTEM_ERROR, ("", 0), ("", 0)⟩,
        ⟨1, RET_SUCC, ("", 0), (dotted 0x0200007F, 8081)⟩] := ⟨_, rfl, rfl, rfl⟩
  obtain ⟨t, hfold, hcalls, hreturned⟩ := hruns
  have run := run_of_foldlM hfold
  exact ⟨t, run, hreturned, run_matches run (by rw [hcalls]; decide)⟩

end HostCalls

end LarsSystem.Agent
