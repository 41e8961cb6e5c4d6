import LarsSystem.ClientRun
import LarsSystem.DescriptorTable

/-!
# The descriptors of a `tcp_client` among those of the process

`_sockfd` is all that a client remembers of the descriptors it has opened.
`clean_conn`, `do_connect` and the destructor close the number that stands there,
and only `do_connect` writes another. Here the system calls of a client are steps of
their own, and between any two of them the other threads of the process may open
descriptors and close theirs. `doRead`, `doWrite` and `cleanConn` are taken apart at
these calls; without the other threads a run puts them together again.
-/

namespace LarsSystem.Reactor

open LarsSystem.MachineWord
open LarsSystem.Transition

/-- Where the client is between two system calls. `adjusts` says that `do_read` goes on
    with `ibuf.adjust()` after `clean_conn`. -/
inductive Control where
  | idle
  | clean (adjusts : Bool)      -- at the start of `clean_conn`
  | hook (adjusts : Bool)       -- behind its `close`
  | reconnect (adjusts : Bool)  -- at its call of `do_connect`
  | connect                     -- at the start of `do_connect`, called from elsewhere
  | socket (adjusts : Bool)     -- behind the `close` of `do_connect`
  | finish (adjusts : Bool)     -- behind `socket`
  | ended
deriving DecidableEq, Repr

/-- Where the first part of a callback ends: at its return, or at a call of `clean_conn`. -/
def Control.IsFront (control : Control) : Prop :=
  control = .idle ∨ ∃ adjusts, control = .clean adjusts

namespace TcpClient

/-! ## The functions up to `clean_conn` -/

/-- `do_read` up to its return or its call of `clean_conn`. -/
def readFront (c : TcpClient) (env : ReadEnv) : Except Crash (TcpClient × Control) :=
  match c.ibuf.readData env with
  | Except.error fault => Except.error ⟨fault, c.calls⟩
  | Except.ok (ret, ibuf) =>
    let c := { c with
      received := c.received ++ ibuf.content.drop c.ibuf.length, ibuf := ibuf }
    if ret = -1 then Except.ok (c, .clean false)
    else if ret = 0 then Except.ok (c, .clean false)
    else
      match dispatchLoop ibuf c.calls with
      | Except.error crash => Except.error crash
      | Except.ok (ibuf, calls, malformed) =>
        let c := { c with
          ibuf := ibuf
          dispatched := c.dispatched ++ calls.drop c.calls.length
          calls := calls }
        if malformed then Except.ok (c, .clean true)
        else Except.ok ({ c with ibuf := c.ibuf.adjust }, .idle)

/-- `do_write` up to its return or its call of `clean_conn`. -/
def writeFront (c : TcpClient) (results : List WriteResult) : Except Fault (TcpClient × Control) :=
  match writeLoop c.obuf results with
  | Except.error fault => Except.error fault
  | Except.ok (obuf, taken, failed) =>
    let c := { c with obuf := obuf, written := c.written ++ taken }
    if failed then Except.ok (c, .clean false)
    else if obuf.length = 0 then
      Except.ok ({ c with loop := c.loop.delIoEventMask c.sockfd .EPOLLOUT }, .idle)
    else Except.ok (c, .idle)

def callbackFront (c : TcpClient) (env : FireEnv) :
    ClientCallback → Except Fault (TcpClient × Control)
  | .clientRdCallback => (c.readFront (env.arrival.env env.stale)).mapError Crash.fault
  | .clientWrCallback => c.writeFront env.results
  | .connectionSucc => (c.connectionSucc c.sockfd env.succ).map fun c => (c, .idle)

/-- `event_process` for a fired event, up to a call of `clean_conn`. -/
def fireFront (c : TcpClient) (fired : Mask) (env : FireEnv) :
    Except Fault (TcpClient × Control) :=
  match c.loop.dispatch c.sockfd fired with
  | .missing => Except.error Fault.loopAssert
  | .callNull => Except.error Fault.nullCall
  | .call proc => c.markCompleted.callbackFront env proc
  | .remove => Except.ok ({ c.markCompleted with loop := c.loop.delIoEvent c.sockfd }, .idle)

/-- What `do_read` still does when `clean_conn` has returned. -/
def afterClean (adjusts : Bool) (c : TcpClient) : TcpClient :=
  if adjusts then { c with ibuf := c.ibuf.adjust } else c

/-- The rest of the callback, in one go. -/
def resume (clean : CleanEnv) : TcpClient × Control → Except Fault TcpClient
  | (c, .clean adjusts) => (c.cleanConn clean).map (afterClean adjusts)
  | (c, _) => Except.ok c

theorem mapError_mapError_calls (outcome : Except Fault TcpClient) (calls : List RouterCall) :
    (outcome.mapError (Crash.mk · calls)).mapError Crash.fault = outcome := by
  cases outcome with
  | error fault => rfl
  | ok c => rfl

theorem map_afterClean_false (outcome : Except Fault TcpClient) :
    outcome.map (afterClean false) = outcome := by
  cases outcome with
  | error fault => rfl
  | ok c => rfl

theorem doRead_front (c : TcpClient) (env : ReadEnv) (clean : CleanEnv) :
    (c.doRead env clean).mapError Crash.fault =
      ((c.readFront env).mapError Crash.fault).bind (resume clean) := by
  cases hdata : c.ibuf.readData env with
  | error fault =>
    simp only [doRead, readFront, hdata]
    rfl
  | ok data =>
    obtain ⟨ret, ibuf⟩ := data
    simp only [doRead, readFront, hdata]
    by_cases hfails : ret = -1 ∨ ret = 0
    · -- the read has failed, or the peer has closed
      have hback : ∀ c : TcpClient, ((c.cleanConn clean).mapError (Crash.mk · c.calls)).mapError
          Crash.fault = (c.cleanConn clean).map (afterClean false) := by
        intro c
        rw [mapError_mapError_calls, map_afterClean_false]
      rcases hfails with rfl | rfl
      · exact hback _
      · exact hback _
    · obtain ⟨herror, hend⟩ := not_or.mp hfails
      rw [if_neg herror, if_neg hend, if_neg herror, if_neg hend]
      cases hloop : dispatchLoop ibuf c.calls with
      | error crash => rfl
      | ok left =>
        obtain ⟨ibuf, calls, malformed⟩ := left
        cases malformed with
        | false => rfl
        | true =>
          simp only [if_true]
          split
          · next hclean => exact (congrArg (Except.map (afterClean true)) hclean).symm
          · next hclean => exact (congrArg (Except.map (afterClean true)) hclean).symm

theorem doWrite_front (c : TcpClient) (results : List WriteResult) (clean : CleanEnv) :
    c.doWrite results clean = (c.writeFront results).bind (resume clean) := by
  cases hloop : writeLoop c.obuf results with
  | error fault =>
    simp only [doWrite, writeFront, hloop]
    rfl
  | ok left =>
    obtain ⟨obuf, taken, failed⟩ := left
    simp only [doWrite, writeFront, hloop]
    cases failed with
    | true => exact (map_afterClean_false _).symm
    | false =>
      simp only [Bool.false_eq_true, if_false]
      split
      · rfl
      · rfl

/-- An event in one go is its first part and the rest. -/
theorem fire_front (c : TcpClient) (fired : Mask) (env : FireEnv) :
    c.fire fired env = (c.fireFront fired env).bind (resume env.clean) := by
  unfold fire fireFront
  cases c.loop.dispatch c.sockfd fired with
  | missing => rfl
  | callNull => rfl
  | remove => rfl
  | call proc =>
    cases proc with
    | clientRdCallback => exact doRead_front _ _ _
    | clientWrCallback => exact doWrite_front _ _ _
    | connectionSucc =>
      simp only [callback, callbackFront]
      cases c.markCompleted.connectionSucc c.markCompleted.sockfd env.succ with
      | error fault => rfl
      | ok c => rfl

/-! ## `do_connect`, call by call -/

/-- `if(_sockfd != -1) close(_sockfd);` -/
def closeOld (c : TcpClient) : TcpClient := if c.sockfd ≠ -1 then c.closeFd c.sockfd else c

/-- `_sockfd` gets the answer of `socket`, and the outside begins to look at the new socket. -/
def takeSocket (c : TcpClient) (socket : Int) (connect : ConnectResult) : TcpClient :=
  { c with
    sockfd := socket
    written := []
    received := []
    dispatched := []
    phase := if connect = .success then .established else .connecting
    completed := decide (connect = .success)
    startDue := c.connStartCb
    startCalls := 0 }

/-- `do_connect` from `connect` on. -/
def finishConnect (c : TcpClient) (env : ConnectEnv) : Except Fault TcpClient :=
  match env.connect with
  | .success =>
    match c.startHook env.startSends with
    | Except.error fault => Except.error fault
    | Except.ok c => (c.watch c.sockfd env.ctlRead env.ctlWrite).connectionSucc c.sockfd env.succ
  | .inProgress =>
    Except.ok { c with loop := c.loop.addIoEvent c.sockfd .connectionSucc .EPOLLOUT env.ctlWrite }
  | .failure => Except.error Fault.exitCall

theorem doConnect_calls {env : ConnectEnv} (hsocket : env.socket ≠ -1) (c : TcpClient) :
    c.doConnect env = (c.closeOld.takeSocket env.socket env.connect).finishConnect env := by
  rw [doConnect, if_neg hsocket]
  rfl

/-! ## The field `_sockfd` -/

theorem Sends.sockfd {c c' : TcpClient} (sends : Sends c c') : c'.sockfd = c.sockfd := by
  induction sends with
  | refl => rfl
  | send _ hsend ih =>
    unfold sendMessage at hsend
    split at hsend
    · cases hsend
    · cases hsend
      exact ih
  | loop loop _ ih => exact ih
  | closed closed _ ih => exact ih
  | startCalls startCalls _ ih => exact ih

@[simp] theorem closeSocket_sockfd (c : TcpClient) : c.closeSocket.sockfd = c.sockfd := by
  unfold closeSocket
  split
  · rfl
  · rfl

@[simp] theorem afterClean_sockfd (adjusts : Bool) (c : TcpClient) :
    (c.afterClean adjusts).sockfd = c.sockfd := by
  unfold afterClean
  split
  · rfl
  · rfl

theorem finishConnect_sockfd {c c' : TcpClient} {env : ConnectEnv}
    (hfinish : c.finishConnect env = Except.ok c') : c'.sockfd = c.sockfd := by
  unfold finishConnect at hfinish
  split at hfinish
  · split at hfinish
    · cases hfinish
    · next d hhook =>
      have hwatch : (d.watch d.sockfd env.ctlRead env.ctlWrite).sockfd = d.sockfd := rfl
      rw [(sends_connectionSucc hfinish).sockfd, hwatch, (sends_startHook hhook).sockfd]
  · cases hfinish
    rfl
  · cases hfinish

theorem readFront_sockfd {c c' : TcpClient} {env : ReadEnv} {control : Control}
    (hread : c.readFront env = Except.ok (c', control)) :
    c'.sockfd = c.sockfd ∧ control.IsFront := by
  unfold readFront at hread
  split at hread
  · cases hread
  · simp only at hread
    split at hread
    · cases hread
      exact ⟨rfl, Or.inr ⟨false, rfl⟩⟩
    · split at hread
      · cases hread
        exact ⟨rfl, Or.inr ⟨false, rfl⟩⟩
      · split at hread
        · cases hread
        · split at hread
          · cases hread
            exact ⟨rfl, Or.inr ⟨true, rfl⟩⟩
          · cases hread
            exact ⟨rfl, Or.inl rfl⟩

theorem writeFront_sockfd {c c' : TcpClient} {results : List WriteResult} {control : Control}
    (hwrite : c.writeFront results = Except.ok (c', control)) :
    c'.sockfd = c.sockfd ∧ control.IsFront := by
  unfold writeFront at hwrite
  split at hwrite
  · cases hwrite
  · simp only at hwrite
    split at hwrite
    · cases hwrite
      exact ⟨rfl, Or.inr ⟨false, rfl⟩⟩
    · split at hwrite
      · cases hwrite
        exact ⟨rfl, Or.inl rfl⟩
      · cases hwrite
        exact ⟨rfl, Or.inl rfl⟩

theorem fireFront_sockfd {c c' : TcpClient} {fired : Mask} {env : FireEnv} {control : Control}
    (hfire : c.fireFront fired env = Except.ok (c', control)) :
    c'.sockfd = c.sockfd ∧ control.IsFront := by
  unfold fireFront at hfire
  split at hfire
  · cases hfire
  · cases hfire
  · next proc hproc =>
    cases proc with
    | clientRdCallback => exact readFront_sockfd (c := c.markCompleted) (ok_of_mapError hfire)
    | clientWrCallback => exact writeFront_sockfd (c := c.markCompleted) hfire
    | connectionSucc =>
      obtain ⟨d, hsucc, hd⟩ := map_eq_ok.mp hfire
      cases hd
      exact ⟨(sends_connectionSucc hsucc).sockfd, Or.inl rfl⟩
  · cases hfire
    exact ⟨rfl, Or.inl rfl⟩

/-- What else happens to a client between two fired events leaves `_sockfd` as it is. -/
theorem step_sockfd {c c' : TcpClient} {event : ClientEvent}
    (hfire : ∀ fired env, event ≠ .fire fired env) (hstep : step c event c') :
    c'.sockfd = c.sockfd := by
  cases event with
  | settle accepted =>
    obtain ⟨-, rfl⟩ := hstep
    rfl
  | send m env =>
    obtain ⟨ret, hsend⟩ := hstep
    exact (Sends.send Sends.refl hsend).sockfd
  | fire fired env => exact absurd rfl (hfire fired env)
  | setConnStart registered =>
    cases hstep
    rfl
  | setConnClose registered =>
    cases hstep
    rfl
  | others loop =>
    obtain ⟨-, -, rfl⟩ := hstep
    rfl

end TcpClient

/-! ## The client in its process -/

inductive DescriptorOwner where
  | client
  | others
deriving DecidableEq, Repr

/-- A client between two system calls, the descriptors of its process, and what the client
    has opened and closed. -/
structure ClientProcess where
  client : TcpClient
  control : Control
  table : DescriptorTable DescriptorOwner
  history : List DescriptorAct

/-- The labels of a run; `others` are the other threads. -/
inductive ProcessLabel where
  | othersOpen
  | othersClose (fd : Int)
  | event (event : ClientEvent)
  | fire (fired : Mask) (env : FireEnv)
  | callDoConnect
  | callCleanConn
  | destroy
  | closeSocket
  | closeHook (sends : HookSends)
  | closeOld
  | openSocket
  | socketFails
  | connect (env : ConnectEnv)

namespace ClientProcess

open TcpClient

/-- The constructor, at its call of `do_connect`. -/
def start (loop : EventLoop ClientCallback) (table : DescriptorTable DescriptorOwner) :
    ClientProcess where
  client :=
    { sockfd := -1
      ibuf := ReactorBuf.empty
      obuf := ReactorBuf.empty
      connStartCb := false
      connCloseCb := false
      loop := loop
      calls := []
      accepted := []
      closed := []
      written := []
      received := []
      dispatched := []
      phase := .connecting
      completed := false
      startDue := false
      startCalls := 0 }
  control := .connect
  table := table
  history := []

/-- The client calls `close`. -/
def closes (s : ClientProcess) (fd : Int) : ClientProcess :=
  { s with table := s.table.close fd, history := s.history ++ [.closed fd] }

/-- The client calls `close` on what is in `_sockfd`, if anything. -/
def closesSockfd (s : ClientProcess) : ClientProcess :=
  if s.client.sockfd ≠ -1 then s.closes s.client.sockfd else s

inductive Step : ClientProcess → ProcessLabel → ClientProcess → Prop
  | othersOpen (s : ClientProcess) :
      Step s .othersOpen { s with table := s.table.grant .others }
  | othersClose {s : ClientProcess} {fd : Int} (howner : s.table.owner fd = some .others) :
      Step s (.othersClose fd) { s with table := s.table.close fd }
  | event {s : ClientProcess} {event : ClientEvent} {c : TcpClient} (hat : s.control = .idle)
      (hfire : ∀ fired env, event ≠ .fire fired env) (hstep : TcpClient.step s.client event c) :
      Step s (.event event) { s with client := c }
  | fire {s : ClientProcess} {fired : Mask} {env : FireEnv} {c : TcpClient} {control : Control}
      (hat : s.control = .idle) (hreport : s.client.Reportable fired)
      (hfire : s.client.fireFront fired env = Except.ok (c, control)) :
      Step s (.fire fired env) { s with client := c, control := control }
  | callDoConnect {s : ClientProcess} (hat : s.control = .idle) :
      Step s .callDoConnect { s with control := .connect }
  | callCleanConn {s : ClientProcess} (hat : s.control = .idle) :
      Step s .callCleanConn { s with control := .clean false }
  | destroy {s : ClientProcess} (hat : s.control = .idle) :
      Step s .destroy { s.closes s.client.sockfd with control := .ended }
  | closeSocket {s : ClientProcess} {adjusts : Bool} (hat : s.control = .clean adjusts) :
      Step s .closeSocket
        { s.closesSockfd with client := s.client.closeSocket, control := .hook adjusts }
  | closeHook {s : ClientProcess} {adjusts : Bool} {sends : HookSends} {c : TcpClient}
      (hat : s.control = .hook adjusts) (hhook : s.client.closeHook sends = Except.ok c) :
      Step s (.closeHook sends) { s with client := c, control := .reconnect adjusts }
  | closeOld {s : ClientProcess} {adjusts : Bool}
      (hat : s.control = .reconnect adjusts ∨ s.control = .connect ∧ adjusts = false) :
      Step s .closeOld
        { s.closesSockfd with client := s.client.closeOld, control := .socket adjusts }
  | openSocket {s : ClientProcess} {adjusts : Bool} (hat : s.control = .socket adjusts) :
      Step s .openSocket
        { client := { s.client with sockfd := s.table.firstFree }
          control := .finish adjusts
          table := s.table.grant .client
          history := s.history ++ [.opened s.table.firstFree] }
  | socketFails {s : ClientProcess} {adjusts : Bool} (hat : s.control = .socket adjusts) :
      Step s .socketFails { s with control := .ended }
  | connect {s : ClientProcess} {adjusts : Bool} {env : ConnectEnv} {c : TcpClient}
      (hat : s.control = .finish adjusts)
      (hconnect : (s.client.takeSocket s.client.sockfd env.connect).finishConnect env =
        Except.ok c) :
      Step s (.connect env) { s with client := c.afterClean adjusts, control := .idle }
  | connectFails {s : ClientProcess} {adjusts : Bool} {env : ConnectEnv}
      (hat : s.control = .finish adjusts) (hconnect : env.connect = .failure) :
      Step s (.connect env) { s with control := .ended }

/-! ## What is in `_sockfd` -/

/-- The close at the start of `do_connect`, when `clean_conn` has called it. -/
def NotReclosing (s : ClientProcess) (label : ProcessLabel) : Prop :=
  label = .closeOld → ∀ adjusts, s.control ≠ .reconnect adjusts

/-- Between `clean_conn`'s close and the next `socket` the number in `_sockfd` is stale. -/
def SockfdHeld (s : ClientProcess) : Prop :=
  match s.control with
  | .idle | .clean _ | .finish _ => s.client.sockfd ≠ -1 ∧ Held s.history s.client.sockfd
  | .hook _ | .reconnect _ => s.client.sockfd ≠ -1 ∧ ¬ Held s.history s.client.sockfd
  | .connect => s.client.sockfd = -1 ∨ Held s.history s.client.sockfd
  | .socket _ | .ended => True

structure Inv (s : ClientProcess) : Prop where
  own : ClosesOwn s.history
  sockfd : s.SockfdHeld

theorem Inv.start (loop : EventLoop ClientCallback) (table : DescriptorTable DescriptorOwner) :
    Inv (start loop table) :=
  ⟨closesOwn_nil, Or.inl rfl⟩

section Inv

variable {s t : ClientProcess} {label : ProcessLabel} {adjusts : Bool}

theorem SockfdHeld.idle (hheld : s.SockfdHeld) (hat : s.control = .idle) :
    s.client.sockfd ≠ -1 ∧ Held s.history s.client.sockfd := by
  unfold SockfdHeld at hheld
  rwa [hat] at hheld

theorem SockfdHeld.clean (hheld : s.SockfdHeld) (hat : s.control = .clean adjusts) :
    s.client.sockfd ≠ -1 ∧ Held s.history s.client.sockfd := by
  unfold SockfdHeld at hheld
  rwa [hat] at hheld

theorem SockfdHeld.hook (hheld : s.SockfdHeld) (hat : s.control = .hook adjusts) :
    s.client.sockfd ≠ -1 ∧ ¬ Held s.history s.client.sockfd := by
  unfold SockfdHeld at hheld
  rwa [hat] at hheld

theorem SockfdHeld.reconnect (hheld : s.SockfdHeld) (hat : s.control = .reconnect adjusts) :
    s.client.sockfd ≠ -1 ∧ ¬ Held s.history s.client.sockfd := by
  unfold SockfdHeld at hheld
  rwa [hat] at hheld

theorem SockfdHeld.connect (hheld : s.SockfdHeld) (hat : s.control = .connect)
    (hne : s.client.sockfd ≠ -1) : Held s.history s.client.sockfd := by
  unfold SockfdHeld at hheld
  rw [hat] at hheld
  exact hheld.resolve_left hne

theorem SockfdHeld.finish (hheld : s.SockfdHeld) (hat : s.control = .finish adjusts) :
    s.client.sockfd ≠ -1 ∧ Held s.history s.client.sockfd := by
  unfold SockfdHeld at hheld
  rwa [hat] at hheld

theorem closesSockfd_eq (hsockfd : s.client.sockfd ≠ -1) :
    s.closesSockfd = s.closes s.client.sockfd :=
  if_pos hsockfd

/-- Closing what `_sockfd` holds is the client's own business. -/
theorem closesOwn_closesSockfd (hown : ClosesOwn s.history)
    (hheld : s.client.sockfd ≠ -1 → Held s.history s.client.sockfd) :
    ClosesOwn s.closesSockfd.history := by
  unfold ClientProcess.closesSockfd
  split
  · next hne => exact closesOwn_closed_iff.mpr ⟨hown, hheld hne⟩
  · exact hown

theorem Inv.step (hinv : s.Inv) (hguard : s.NotReclosing label) (hstep : Step s label t) :
    t.Inv := by
  have hsockfd := hinv.sockfd
  cases hstep with
  | othersOpen => exact ⟨hinv.own, hsockfd⟩
  | othersClose howner => exact ⟨hinv.own, hsockfd⟩
  | event hat hfire hevent =>
    refine ⟨hinv.own, ?_⟩
    have hidle := hsockfd.idle hat
    simp only [SockfdHeld, hat]
    rwa [step_sockfd hfire hevent]
  | fire hat hreport hfire =>
    obtain ⟨hsame, hfront⟩ := fireFront_sockfd hfire
    have hidle := hsockfd.idle hat
    rw [← hsame] at hidle
    refine ⟨hinv.own, ?_⟩
    rcases hfront with rfl | ⟨adjusts, rfl⟩
    · exact hidle
    · exact hidle
  | callDoConnect hat => exact ⟨hinv.own, Or.inr (hsockfd.idle hat).2⟩
  | callCleanConn hat => exact ⟨hinv.own, hsockfd.idle hat⟩
  | destroy hat =>
    exact ⟨closesOwn_closed_iff.mpr ⟨hinv.own, (hsockfd.idle hat).2⟩, trivial⟩
  | closeSocket hat =>
    obtain ⟨hne, hheld⟩ := hsockfd.clean hat
    refine ⟨closesOwn_closesSockfd hinv.own fun _ => hheld, ?_⟩
    -- the number stays in `_sockfd`
    simp only [SockfdHeld, closeSocket_sockfd, closesSockfd_eq hne]
    exact ⟨hne, not_held_closed _ _⟩
  | closeHook hat hhook =>
    have hstale := hsockfd.hook hat
    rw [← (sends_closeHook hhook).sockfd] at hstale
    exact ⟨hinv.own, hstale⟩
  | closeOld hat =>
    rcases hat with hat | ⟨hat, rfl⟩
    · exact absurd hat (hguard rfl _)
    · exact ⟨closesOwn_closesSockfd hinv.own (hsockfd.connect hat), trivial⟩
  | openSocket hat => exact ⟨hinv.own.opened _, by simp, held_opened _ _⟩
  | socketFails hat => exact ⟨hinv.own, trivial⟩
  | connect hat hconnect =>
    have hheld := hsockfd.finish hat
    refine ⟨hinv.own, ?_⟩
    simp only [SockfdHeld, afterClean_sockfd]
    rwa [finishConnect_sockfd hconnect]
  | connectFails hat hconnect => exact ⟨hinv.own, trivial⟩

/-- The close of `do_connect` behind `clean_conn` is never of a descriptor of the client. -/
theorem Inv.reclose (hinv : s.Inv) (hat : s.control = .reconnect adjusts)
    (hstep : Step s .closeOld t) : ¬ ClosesOwn t.history := by
  obtain ⟨hne, hstale⟩ := hinv.sockfd.reconnect hat
  cases hstep with
  | closeOld hat' =>
    simp only [closesSockfd_eq hne]
    intro hown
    exact hstale (closesOwn_closed_iff.mp hown).2

/-- **A client closes only what it holds as long as `clean_conn` does not get to the close in
    `do_connect`**, and not one step longer. -/
theorem closesOwn_iff_notReclosing (loop : EventLoop ClientCallback)
    (table : DescriptorTable DescriptorOwner) (labels : List ProcessLabel) (t : ClientProcess) :
    Run (Into (fun s => ClosesOwn s.history) Step) (start loop table) labels t ↔
      Run (Guarded NotReclosing Step) (start loop table) labels t := by
  refine run_into_iff_guarded ?_ ?_ (Inv.start loop table)
  · intro s label t hinv hguard hstep
    exact hinv.step hguard hstep
  · intro s label t hinv hstep
    constructor
    · rintro hown rfl adjusts hat
      exact hinv.reclose hat hstep hown
    · intro hguard
      exact (hinv.step hguard hstep).own

/-- Nothing makes the client disconnect: no event gets it to `clean_conn`, and nobody calls
    that. -/
def StaysConnected (s : ClientProcess) (label : ProcessLabel) : Prop :=
  label ≠ .callCleanConn ∧ ∀ fired env c adjusts, label = .fire fired env →
    s.client.fireFront fired env ≠ Except.ok (c, .clean adjusts)

/-- The client is not in `clean_conn`, nor in a `do_connect` that it has called. -/
def OutsideClean (s : ClientProcess) : Prop :=
  ∀ adjusts, s.control ≠ .clean adjusts ∧ s.control ≠ .hook adjusts ∧
    s.control ≠ .reconnect adjusts

theorem OutsideClean.step (hout : s.OutsideClean) (hstays : s.StaysConnected label)
    (hstep : Step s label t) : t.OutsideClean := by
  cases hstep with
  | othersOpen => exact hout
  | othersClose => exact hout
  | event => exact hout
  | fire hat hreport hfire =>
    obtain ⟨-, rfl | ⟨adjusts, rfl⟩⟩ := fireFront_sockfd hfire
    · intro adjusts
      refine ⟨?_, ?_, ?_⟩ <;> exact Control.noConfusion
    · exact absurd hfire (hstays.2 _ _ _ adjusts rfl)
  | callCleanConn => exact absurd rfl hstays.1
  | closeSocket hat => exact absurd hat (hout _).1
  | closeHook hat => exact absurd hat (hout _).2.1
  | callDoConnect | destroy | closeOld | openSocket | socketFails | connect | connectFails =>
    intro adjusts
    refine ⟨?_, ?_, ?_⟩ <;> exact Control.noConfusion

theorem closesOwn_of_staysConnected {loop : EventLoop ClientCallback}
    {table : DescriptorTable DescriptorOwner} {labels : List ProcessLabel}
    (run : Run (Guarded StaysConnected Step) (start loop table) labels t) :
    ClosesOwn t.history := by
  have hinv : t.Inv ∧ t.OutsideClean := by
    apply Run.invariant _ run
    · refine ⟨Inv.start loop table, fun adjusts => ⟨?_, ?_, ?_⟩⟩ <;> exact Control.noConfusion
    · rintro s label t ⟨hinv, hout⟩ ⟨hstays, hstep⟩
      refine ⟨hinv.step ?_ hstep, hout.step hstays hstep⟩
      intro _ adjusts
      exact (hout adjusts).2.2
  exact hinv.1.own

end Inv

/-! ## The descriptors of the other threads -/

section Others

variable {s t : ClientProcess} {label : ProcessLabel} {labels : List ProcessLabel} {fd : Int}

theorem agrees_closes (hagrees : s.table.Agrees .client s.history) (fd : Int) :
    (s.closes fd).table.Agrees .client (s.closes fd).history :=
  hagrees.closed fd

theorem agrees_closesSockfd (hagrees : s.table.Agrees .client s.history) :
    s.closesSockfd.table.Agrees .client s.closesSockfd.history := by
  unfold closesSockfd
  split
  · exact agrees_closes hagrees _
  · exact hagrees

/-- What the client holds by its history is what the kernel has open for it. -/
theorem agrees_step (hagrees : s.table.Agrees .client s.history) (hstep : Step s label t) :
    t.table.Agrees .client t.history := by
  cases hstep with
  | othersOpen => exact hagrees.othersOpen (by decide)
  | othersClose howner => exact hagrees.othersClose howner (by decide)
  | event => exact hagrees
  | fire => exact hagrees
  | callDoConnect => exact hagrees
  | callCleanConn => exact hagrees
  | destroy => exact agrees_closes hagrees _
  | closeSocket => exact agrees_closesSockfd hagrees
  | closeHook => exact hagrees
  | closeOld => exact agrees_closesSockfd hagrees
  | openSocket => exact hagrees.opened
  | socketFails => exact hagrees
  | connect => exact hagrees
  | connectFails => exact hagrees

theorem closes_others {fd' : Int} (hagrees : s.table.Agrees .client s.history)
    (hheld : Held s.history fd') (hothers : s.table.owner fd = some .others) :
    (s.closes fd').table.owner fd = some .others := by
  have hne : fd ≠ fd' := by
    rintro rfl
    have hclient := (hagrees fd).mpr hheld
    rw [hothers] at hclient
    cases hclient
  exact (DescriptorTable.close_other hne).trans hothers

theorem closesSockfd_others (hagrees : s.table.Agrees .client s.history)
    (hheld : s.client.sockfd ≠ -1 → Held s.history s.client.sockfd)
    (hothers : s.table.owner fd = some .others) :
    s.closesSockfd.table.owner fd = some .others := by
  unfold closesSockfd
  split
  · next hne => exact closes_others hagrees (hheld hne) hothers
  · exact hothers

/-- No other thread loses a descriptor to the client, one step. -/
theorem others_kept (hinv : s.Inv) (hagrees : s.table.Agrees .client s.history)
    (hguard : s.NotReclosing label) (hstep : Step s label t) (hlabel : label ≠ .othersClose fd)
    (hothers : s.table.owner fd = some .others) : t.table.owner fd = some .others := by
  have hsockfd := hinv.sockfd
  cases hstep with
  | othersOpen => exact DescriptorTable.grant_open hothers _
  | @othersClose fd' howner =>
    rw [DescriptorTable.close_other, hothers]
    rintro rfl
    exact hlabel rfl
  | event => exact hothers
  | fire => exact hothers
  | callDoConnect => exact hothers
  | callCleanConn => exact hothers
  | destroy hat => exact closes_others hagrees (hsockfd.idle hat).2 hothers
  | closeSocket hat => exact closesSockfd_others hagrees (fun _ => (hsockfd.clean hat).2) hothers
  | closeHook => exact hothers
  | closeOld hat =>
    rcases hat with hat | ⟨hat, -⟩
    · exact absurd hat (hguard rfl _)
    · exact closesSockfd_others hagrees (hsockfd.connect hat) hothers
  | openSocket => exact DescriptorTable.grant_open hothers _
  | socketFails => exact hothers
  | connect => exact hothers
  | connectFails => exact hothers

theorem others_run (hinv : s.Inv) (hagrees : s.table.Agrees .client s.history)
    (run : Run (Guarded NotReclosing Step) s labels t) (hlabels : .othersClose fd ∉ labels)
    (hothers : s.table.owner fd = some .others) : t.table.owner fd = some .others := by
  induction run with
  | nil s => exact hothers
  | cons hstep _ ih =>
    obtain ⟨hfirst, hrest⟩ := List.ne_and_not_mem_of_not_mem_cons hlabels
    exact ih (hinv.step hstep.1 hstep.2) (agrees_step hagrees hstep.2) hrest
      (others_kept hinv hagrees hstep.1 hstep.2 hfirst.symm hothers)

/-- Where `clean_conn` has freed the smallest free number, the next thread that opens a
    descriptor gets it, and `do_connect` closes it. -/
theorem reclose_takes {adjusts : Bool} {n : Nat} (hat : s.control = .reconnect adjusts)
    (hsockfd : s.client.sockfd = n) (hfree : s.table.owner n = none)
    (htaken : ∀ m : Nat, m < n → s.table.owner m ≠ none) :
    ∃ u t, Step s .othersOpen u ∧ u.table.owner n = some .others ∧
      Step u .closeOld t ∧ t.table.owner n = none ∧ t.history = s.history ++ [.closed n] := by
  have hfirst := DescriptorTable.firstFree_eq hfree htaken
  have hcloses : closesSockfd { s with table := s.table.grant .others } =
      closes { s with table := s.table.grant .others } n := by
    rw [closesSockfd_eq (by simp only [hsockfd]; omega)]
    simp only [hsockfd]
  refine ⟨_, _, .othersOpen s, ?_, .closeOld (Or.inl hat), ?_, ?_⟩
  · change (s.table.grant .others).owner n = _
    rw [← hfirst, DescriptorTable.grant_self]
  · simp only [hcloses]
    exact DescriptorTable.close_self _ _
  · simp only [hcloses]
    rfl

end Others

/-! ## Without the other threads

The steps of a callback, one after the other, come to what the whole callback does. -/

section Undisturbed

variable {s : ClientProcess} {adjusts : Bool} {c' : TcpClient}

theorem run_doConnect {env : ConnectEnv}
    (hat : s.control = .reconnect adjusts ∨ s.control = .connect ∧ adjusts = false)
    (hsocket : env.socket = s.closesSockfd.table.firstFree)
    (hconnect : s.client.doConnect env = Except.ok c') :
    ∃ t, Run Step s [.closeOld, .openSocket, .connect env] t ∧ t.control = .idle ∧
      t.client = c'.afterClean adjusts := by
  have hsocket' : env.socket ≠ -1 := by omega
  rw [doConnect_calls hsocket', hsocket] at hconnect
  exact ⟨_, Run.cons (.closeOld hat) (Run.cons (.openSocket rfl)
    (Run.cons (.connect rfl hconnect) (Run.nil _))), rfl, rfl⟩

/-- The constructor. -/
theorem run_create {loop : EventLoop ClientCallback} {table : DescriptorTable DescriptorOwner}
    {env : ConnectEnv} (hsocket : env.socket = table.firstFree)
    (hcreate : create loop env = Except.ok c') :
    ∃ t, Run Step (start loop table) [.closeOld, .openSocket, .connect env] t ∧
      t.control = .idle ∧ t.client = c' :=
  run_doConnect (Or.inr ⟨rfl, rfl⟩) hsocket hcreate

theorem closesSockfd_again {s' : ClientProcess} (hclient : s'.client.sockfd = s.client.sockfd)
    (htable : s'.table = s.closesSockfd.table) : s'.closesSockfd.table = s.closesSockfd.table := by
  unfold closesSockfd at htable ⊢
  rw [hclient]
  split
  · next hne =>
    rw [if_pos hne] at htable
    simp only [closes, htable, DescriptorTable.close_close]
  · next hne =>
    rw [if_neg hne] at htable
    exact htable

theorem run_cleanConn {env : CleanEnv} (hat : s.control = .clean adjusts)
    (hsocket : env.connect.socket = s.closesSockfd.table.firstFree)
    (hclean : s.client.cleanConn env = Except.ok c') :
    ∃ t, Run Step s [.closeSocket, .closeHook env.closeSends, .closeOld, .openSocket,
        .connect env.connect] t ∧ t.control = .idle ∧ t.client = c'.afterClean adjusts := by
  unfold cleanConn at hclean
  split at hclean
  · cases hclean
  · next d hhook =>
    have hsame : d.sockfd = s.client.sockfd :=
      (sends_closeHook hhook).sockfd.trans (closeSocket_sockfd s.client)
    have hagain : (closesSockfd ⟨d, .reconnect adjusts, s.closesSockfd.table,
        s.closesSockfd.history⟩).table = s.closesSockfd.table :=
      closesSockfd_again hsame rfl
    obtain ⟨t, hrun, hidle, hclient⟩ :=
      run_doConnect (Or.inl rfl) (hsocket.trans (by rw [hagain])) hclean
    exact ⟨t, Run.cons (.closeSocket hat) (Run.cons (.closeHook rfl hhook) hrun), hidle, hclient⟩

/-- A fired event of a client, with the descriptor that the kernel grants in a disconnect. -/
theorem run_fire {fired : Mask} {env : FireEnv} (hat : s.control = .idle)
    (hsocket : env.clean.connect.socket = s.closesSockfd.table.firstFree)
    (hstep : TcpClient.step s.client (.fire fired env) c') :
    ∃ labels t, Run Step s (.fire fired env :: labels) t ∧ t.control = .idle ∧ t.client = c' := by
  obtain ⟨hreport, -, hfire⟩ := hstep
  rw [fire_front] at hfire
  cases hfront : s.client.fireFront fired env with
  | error fault =>
    rw [hfront] at hfire
    cases hfire
  | ok front =>
    obtain ⟨c, control⟩ := front
    rw [hfront] at hfire
    have hfirst := Step.fire hat hreport hfront
    obtain ⟨hsame, rfl | ⟨adjusts, rfl⟩⟩ := fireFront_sockfd hfront
    · cases hfire
      exact ⟨[], _, Run.cons hfirst (Run.nil _), rfl, rfl⟩
    · obtain ⟨d, hclean, rfl⟩ := map_eq_ok.mp hfire
      have hcloses : (closesSockfd ⟨c, .clean adjusts, s.table, s.history⟩).table =
          s.closesSockfd.table := by
        simp only [closesSockfd, closes, hsame]
        split
        · rfl
        · rfl
      obtain ⟨t, hrun, hidle, hclient⟩ :=
        run_cleanConn rfl (hsocket.trans (by rw [hcloses])) hclean
      exact ⟨_, t, Run.cons hfirst hrun, hidle, hclient⟩

end Undisturbed

/-! ### A disconnect on descriptor 3 -/

/-- Standard input, output and error. -/
def stdio : DescriptorTable DescriptorOwner where
  owner := fun fd => if 0 ≤ fd ∧ fd < 3 then some .others else none
  negative := by
    intro fd hneg
    rw [if_neg (by omega)]
  finite := ⟨3, fun n hn => if_neg (by omega)⟩

def connected : ConnectEnv := ⟨3, .success, [], true, true, ⟨[], true, true⟩⟩

/-- The server closes the connection, another thread opens a descriptor while the client is in
    `clean_conn`, and the client closes it. -/
theorem client_closes_foreign :
    ∃ labels s t, Run Step (start EventLoop.empty stdio) labels s ∧
      s.table.owner 3 = some .others ∧ Step s .closeOld t ∧ t.table.owner 3 = none ∧
      t.history = [.opened 3, .closed 3, .closed 3] ∧ ¬ ClosesOwn t.history := by
  have hthird : stdio.firstFree = 3 := by
    apply DescriptorTable.firstFree_eq rfl
    decide
  have hopen : ∀ s : ClientProcess, s.control = .socket false → s.table = stdio →
      Step s .openSocket
        ⟨{ s.client with sockfd := 3 }, .finish false, stdio.grant .client,
          s.history ++ [.opened 3]⟩ := by
    intro s hat htable
    have hstep := Step.openSocket hat
    rw [htable, hthird] at hstep
    exact hstep
  have hrun : ∃ s, Run Step (start EventLoop.empty stdio)
      [.closeOld, .openSocket, .connect connected, .fire .EPOLLIN (meets .hangup), .closeSocket,
        .closeHook []] s ∧ s.control = .reconnect false ∧ s.client.sockfd = 3 ∧
      s.table = (stdio.grant .client).close 3 ∧ s.history = [.opened 3, .closed 3] := by
    refine ⟨_, Run.cons (.closeOld (Or.inr ⟨rfl, rfl⟩)) (Run.cons (hopen _ rfl rfl)
      (Run.cons (.connect rfl rfl) (Run.cons (.fire rfl ⟨?_, .EPOLLIN, rfl, id, id⟩ rfl)
        (Run.cons (.closeSocket rfl) (Run.cons (.closeHook rfl rfl) (Run.nil _)))))),
      rfl, rfl, rfl, rfl⟩
    exact fun hconnecting => SocketPhase.noConfusion hconnecting
  obtain ⟨s, hrun, hat, hsockfd, htable, hhistory⟩ := hrun
  have hfree : s.table.owner 3 = none := by
    rw [htable]
    exact DescriptorTable.close_self _ _
  have htaken : ∀ m : Nat, m < 3 → s.table.owner m ≠ none := by
    intro m hm hnone
    have hne : (m : Int) ≠ 3 := by omega
    rw [htable, DescriptorTable.close_other hne, DescriptorTable.grant_other (by omega)] at hnone
    simp [stdio] at hnone
    omega
  obtain ⟨u, t, hothers, howner, hclose, hlost, hhistory'⟩ :=
    reclose_takes (n := 3) hat hsockfd hfree htaken
  rw [hhistory] at hhistory'
  refine ⟨_, u, t, hrun.snoc hothers, howner, hclose, hlost, hhistory', ?_⟩
  rw [hhistory']
  intro hown
  exact not_held_closed [.opened 3] 3 (closesOwn_closed_iff.mp hown).2

end ClientProcess

end LarsSystem.Reactor
