import LarsSystem.EventLoop
import LarsSystem.MessageInput
import LarsSystem.MessageOutput

/-!
# `tcp_client`

The client's end of a connection. It outlives its sockets: `clean_conn` closes
the socket and `do_connect` opens the next one, and both buffers stay. A
non-blocking `connect` ends at once or is completed later by `connection_succ`,
which waits in the write slot of the socket's `io_event`.

What the kernel answers and what the two hooks send are arguments. A hook is
registered or NULL; where it is registered and called, it makes any
`send_message` calls. As for `tcp_conn`, a client carries what the outside has
seen. `phase` is the kernel's side of the current socket; `completed` says that
the event which reports the outcome of `connect` has been handled, and `startDue`
whether a start hook was registered then; these and `written`, `received`,
`dispatched` and `startCalls` start again with each socket.
-/

namespace LarsSystem.Reactor

open LarsSystem.MachineWord
open LarsSystem.LengthFraming

inductive ClientCallback where
  | clientRdCallback
  | clientWrCallback
  | connectionSucc
deriving DecidableEq, Repr

/-- The `send_message` calls a hook makes. -/
abbrev HookSends := List (Message × SendEnv)

/-- What `connection_succ` meets besides `SO_ERROR`: the sends of the start hook and
    the answers of `epoll_ctl`. -/
structure SuccEnv where
  startSends : HookSends
  ctlRead : Bool
  ctlWrite : Bool

/-- The answer of a non-blocking `connect`: 0, `EINPROGRESS`, or another error. -/
inductive ConnectResult where
  | success
  | inProgress
  | failure
deriving DecidableEq, Repr

/-- The kernel's side of a socket; `SO_ERROR` is set for a refused one only. -/
inductive SocketPhase where
  | connecting
  | established
  | refused
deriving DecidableEq, Repr

/-- What `do_connect` meets; `succ` is for the `connection_succ` it calls itself. -/
structure ConnectEnv where
  socket : Int
  connect : ConnectResult
  startSends : HookSends
  ctlRead : Bool
  ctlWrite : Bool
  succ : SuccEnv

structure CleanEnv where
  closeSends : HookSends
  connect : ConnectEnv

structure TcpClient where
  sockfd : Int
  ibuf : ReactorBuf
  obuf : ReactorBuf
  connStartCb : Bool
  connCloseCb : Bool
  loop : EventLoop ClientCallback
  calls : List RouterCall
  accepted : List Message
  closed : List Int
  written : List Byte
  received : List Byte
  dispatched : List RouterCall
  phase : SocketPhase
  completed : Bool
  startDue : Bool
  startCalls : Nat

namespace TcpClient

/-- `tcp_client::send_message`. -/
def sendMessage (c : TcpClient) (m : Message) (env : SendEnv) :
    Except Fault (Int × TcpClient) :=
  match queueMessage c.obuf m env with
  | Except.error fault => Except.error fault
  | Except.ok (ret, obuf, activeEpollout) =>
    let loop :=
      if activeEpollout then c.loop.addIoEvent c.sockfd .clientWrCallback .EPOLLOUT env.ctlOk
      else c.loop
    let accepted := if ret = 0 then c.accepted ++ [m] else c.accepted
    Except.ok (ret, { c with obuf := obuf, loop := loop, accepted := accepted })

def sendAll (c : TcpClient) : HookSends → Except Fault TcpClient
  | [] => Except.ok c
  | (m, env) :: sends =>
    match c.sendMessage m env with
    | Except.error fault => Except.error fault
    | Except.ok (_, c) => c.sendAll sends

/-- `if (_conn_start_cb != NULL) _conn_start_cb(..)`. -/
def startHook (c : TcpClient) (sends : HookSends) : Except Fault TcpClient :=
  if c.connStartCb then { c with startCalls := c.startCalls + 1 }.sendAll sends
  else Except.ok c

/-- `if (_conn_close_cb != NULL) _conn_close_cb(..)`. -/
def closeHook (c : TcpClient) (sends : HookSends) : Except Fault TcpClient :=
  if c.connCloseCb then c.sendAll sends else Except.ok c

/-- The registrations of an established connection: for reading, and for writing
    where something is queued. -/
def watch (c : TcpClient) (fd : Int) (ctlRead ctlWrite : Bool) : TcpClient :=
  let reading := c.loop.addIoEvent fd .clientRdCallback .EPOLLIN ctlRead
  { c with
    loop :=
      if c.obuf.length ≠ 0 then reading.addIoEvent fd .clientWrCallback .EPOLLOUT ctlWrite
      else reading }

/-- `connection_succ`. -/
def connectionSucc (c : TcpClient) (fd : Int) (env : SuccEnv) : Except Fault TcpClient :=
  let c := { c with loop := c.loop.delIoEvent fd }
  if c.phase ≠ .refused then
    match c.startHook env.startSends with
    | Except.error fault => Except.error fault
    | Except.ok c => Except.ok (c.watch fd env.ctlRead env.ctlWrite)
  else Except.ok c

def closeFd (c : TcpClient) (fd : Int) : TcpClient :=
  { c with loop := c.loop.closeFd fd, closed := c.closed ++ [fd] }

/-- The start of `do_connect`: the old socket is closed, once more after
    `clean_conn`, and a new one opened, for which `connect` gives an answer. -/
def openSocket (c : TcpClient) (socket : Int) (connect : ConnectResult) : TcpClient :=
  let c := if c.sockfd ≠ -1 then c.closeFd c.sockfd else c
  { c with
    sockfd := socket
    written := []
    received := []
    dispatched := []
    phase := if connect = .success then .established else .connecting
    completed := decide (connect = .success)
    startDue := c.connStartCb
    startCalls := 0 }

/-- `tcp_client::do_connect`. -/
def doConnect (c : TcpClient) (env : ConnectEnv) : Except Fault TcpClient :=
  if env.socket = -1 then Except.error Fault.exitCall
  else
    let c := c.openSocket env.socket env.connect
    match env.connect with
    | .success =>
      match c.startHook env.startSends with
      | Except.error fault => Except.error fault
      | Except.ok c => (c.watch c.sockfd env.ctlRead env.ctlWrite).connectionSucc c.sockfd env.succ
    | .inProgress =>
      Except.ok
        { c with loop := c.loop.addIoEvent c.sockfd .connectionSucc .EPOLLOUT env.ctlWrite }
    | .failure => Except.error Fault.exitCall

/-- The constructor. -/
def create (loop : EventLoop ClientCallback) (env : ConnectEnv) : Except Fault TcpClient :=
  doConnect
    { sockfd := -1
      ibuf := ReactorBuf.empty
      obuf := ReactorBuf.empty
      connStartCb := false
      connCloseCb := false
      loop := loop
      calls := []
      accepted := []
      closed := []
      written := []
      received := []
      dispatched := []
      phase := .connecting
      completed := false
      startDue := false
      startCalls := 0 } env

/-- The start of `clean_conn`. -/
def closeSocket (c : TcpClient) : TcpClient :=
  if c.sockfd ≠ -1 then { c with loop := c.loop.delIoEvent c.sockfd }.closeFd c.sockfd else c

/-- `tcp_client::clean_conn`: it clears neither buffer. -/
def cleanConn (c : TcpClient) (env : CleanEnv) : Except Fault TcpClient :=
  match c.closeSocket.closeHook env.closeSends with
  | Except.error fault => Except.error fault
  | Except.ok c => c.doConnect env.connect

/-- `tcp_client::do_read`. -/
def doRead (c : TcpClient) (env : ReadEnv) (clean : CleanEnv) : Except Crash TcpClient :=
  match c.ibuf.readData env with
  | Except.error fault => Except.error ⟨fault, c.calls⟩
  | Except.ok (ret, ibuf) =>
    let c := { c with
      received := c.received ++ ibuf.content.drop c.ibuf.length, ibuf := ibuf }
    if ret = -1 then (c.cleanConn clean).mapError (⟨·, c.calls⟩)
    else if ret = 0 then (c.cleanConn clean).mapError (⟨·, c.calls⟩)
    else
      match dispatchLoop ibuf c.calls with
      | Except.error crash => Except.error crash
      | Except.ok (ibuf, calls, malformed) =>
        let c := { c with
          ibuf := ibuf
          dispatched := c.dispatched ++ calls.drop c.calls.length
          calls := calls }
        if malformed then
          match c.cleanConn clean with
          | Except.error fault => Except.error ⟨fault, calls⟩
          | Except.ok c => Except.ok { c with ibuf := c.ibuf.adjust }
        else Except.ok { c with ibuf := c.ibuf.adjust }

/-- `tcp_client::do_write`, with the answers of its `write` calls. -/
def doWrite (c : TcpClient) (results : List WriteResult) (clean : CleanEnv) :
    Except Fault TcpClient :=
  match writeLoop c.obuf results with
  | Except.error fault => Except.error fault
  | Except.ok (obuf, taken, failed) =>
    let c := { c with obuf := obuf, written := c.written ++ taken }
    if failed then c.cleanConn clean
    else if obuf.length = 0 then
      Except.ok { c with loop := c.loop.delIoEventMask c.sockfd .EPOLLOUT }
    else Except.ok c

/-! ## One chunk -/

section Chunk

variable {c : TcpClient} {bytes : List Byte}

/-- The client after it has read `bytes` and dispatched what they complete. -/
def afterChunk (c : TcpClient) (bytes : List Byte) (ibuf : ReactorBuf) : TcpClient :=
  let calls := (parse msgCodec (c.ibuf.content ++ bytes)).frames.map RouterCall.ofFrame
  { c with
    ibuf := ibuf
    calls := c.calls ++ calls
    received := c.received ++ bytes
    dispatched := c.dispatched ++ calls }

/-- A read that appended `bytes` dispatches what they complete; a malformed header
    disconnects and stays in the buffer. -/
theorem doRead_dispatch {env : ReadEnv} {filled : ReactorBuf} (clean : CleanEnv)
    (hread : c.ibuf.readData env = Except.ok ((bytes.length : Int), filled))
    (hfilled : filled.content = c.ibuf.content ++ bytes) (hne : bytes ≠ [])
    (htail : ¬ (parse msgCodec (c.ibuf.content ++ bytes)).EndsEmpty) :
    ∃ rest : ReactorBuf, rest.content = (parse msgCodec (c.ibuf.content ++ bytes)).rest ∧
      c.doRead env clean =
        if (parse msgCodec (c.ibuf.content ++ bytes)).malformed then
          match (c.afterChunk bytes rest).cleanConn clean with
          | Except.error fault => Except.error ⟨fault, (c.afterChunk bytes rest).calls⟩
          | Except.ok c => Except.ok { c with ibuf := c.ibuf.adjust }
        else Except.ok (c.afterChunk bytes rest.adjust) := by
  rw [← hfilled] at htail
  obtain ⟨rest, hrest, hloop⟩ := dispatchLoop_parse filled c.calls htail
  rw [hfilled] at hrest hloop
  have hpos := List.length_pos_iff.mpr hne
  refine ⟨rest, hrest, ?_⟩
  simp only [doRead, hread, hloop]
  rw [if_neg (by omega), if_neg (by omega)]
  simp only [afterChunk, hfilled, List.drop_left' (ReactorBuf.content_length _), List.drop_left]

theorem doRead_chunk (stale : List Byte) (clean : CleanEnv) (hready : c.ibuf.Ready)
    (hne : bytes ≠ []) (hfits : c.ibuf.length + bytes.length ≤ maxBytes)
    (htail : ¬ (parse msgCodec (c.ibuf.content ++ bytes)).EndsEmpty)
    (hok : (parse msgCodec (c.ibuf.content ++ bytes)).malformed = false) :
    ∃ ibuf : ReactorBuf, ibuf.Ready ∧
      ibuf.content = (parse msgCodec (c.ibuf.content ++ bytes)).rest ∧
      c.doRead ⟨some bytes.length, some bytes, stale⟩ clean =
        Except.ok (c.afterChunk bytes ibuf) := by
  obtain ⟨filled, hread, -, hfilled⟩ := ReactorBuf.readData_chunk stale hready hne hfits
  obtain ⟨rest, hrest, hdispatch⟩ := doRead_dispatch clean hread hfilled hne htail
  refine ⟨rest.adjust, rest.adjust_ready, by rw [ReactorBuf.adjust_content, hrest], ?_⟩
  rw [hdispatch]
  simp only [hok, Bool.false_eq_true, if_false]

end Chunk

/-! ## What sending and reconnecting leave alone

Hooks send, and `connection_succ`, `do_connect` and `clean_conn` besides that
only touch the event loop, the descriptors and what is kept for each socket.
`Sends c c'` says that `c'` comes from `c` by such steps on one socket. -/

inductive Sends (c : TcpClient) : TcpClient → Prop
  | refl : Sends c c
  | send {c' c'' : TcpClient} {m : Message} {env : SendEnv} {ret : Int} :
      Sends c c' → c'.sendMessage m env = Except.ok (ret, c'') → Sends c c''
  | loop {c' : TcpClient} (loop : EventLoop ClientCallback) :
      Sends c c' → Sends c { c' with loop := loop }
  | closed {c' : TcpClient} (closed : List Int) :
      Sends c c' → Sends c { c' with closed := closed }
  | startCalls {c' : TcpClient} (startCalls : Nat) :
      Sends c c' → Sends c { c' with startCalls := startCalls }

theorem Sends.trans {c c' c'' : TcpClient} (first : Sends c c') (second : Sends c' c'') :
    Sends c c'' := by
  induction second with
  | refl => exact first
  | send _ hsend ih => exact Sends.send ih hsend
  | loop loop _ ih => exact Sends.loop loop ih
  | closed closed _ ih => exact Sends.closed closed ih
  | startCalls startCalls _ ih => exact Sends.startCalls startCalls ih

theorem Sends.closeFd {c c' : TcpClient} (sends : Sends c c') (fd : Int) :
    Sends c (c'.closeFd fd) := by
  have hloop := Sends.loop (c'.loop.closeFd fd) sends
  exact Sends.closed (c'.closed ++ [fd]) hloop

theorem sends_sendAll {c c' : TcpClient} {sends : HookSends}
    (hsend : c.sendAll sends = Except.ok c') : Sends c c' := by
  induction sends generalizing c with
  | nil =>
    cases hsend
    exact Sends.refl
  | cons send sends ih =>
    obtain ⟨m, env⟩ := send
    rw [sendAll] at hsend
    split at hsend
    · cases hsend
    · rename_i hfirst
      exact (Sends.send Sends.refl hfirst).trans (ih hsend)

theorem sends_startHook {c c' : TcpClient} {sends : HookSends}
    (hhook : c.startHook sends = Except.ok c') : Sends c c' := by
  unfold startHook at hhook
  split at hhook
  · exact (Sends.startCalls _ Sends.refl).trans (sends_sendAll hhook)
  · cases hhook
    exact Sends.refl

theorem sends_closeHook {c c' : TcpClient} {sends : HookSends}
    (hhook : c.closeHook sends = Except.ok c') : Sends c c' := by
  unfold closeHook at hhook
  split at hhook
  · exact sends_sendAll hhook
  · cases hhook
    exact Sends.refl

theorem sends_connectionSucc {c c' : TcpClient} {fd : Int} {env : SuccEnv}
    (hsucc : c.connectionSucc fd env = Except.ok c') : Sends c c' := by
  unfold connectionSucc at hsucc
  simp only at hsucc
  split at hsucc
  · split at hsucc
    · cases hsucc
    · rename_i hhook
      cases hsucc
      exact Sends.loop _ ((Sends.loop _ Sends.refl).trans (sends_startHook hhook))
  · cases hsucc
    exact Sends.loop _ Sends.refl

theorem sends_doConnect {c c' : TcpClient} {env : ConnectEnv}
    (hconnect : c.doConnect env = Except.ok c') :
    Sends (c.openSocket env.socket env.connect) c' := by
  unfold doConnect at hconnect
  simp only at hconnect
  split at hconnect
  · cases hconnect
  · split at hconnect
    · split at hconnect
      · cases hconnect
      · rename_i hhook
        exact (sends_startHook hhook).trans
          ((Sends.loop _ Sends.refl).trans (sends_connectionSucc hconnect))
    · cases hconnect
      exact Sends.loop _ Sends.refl
    · cases hconnect

/-- `clean_conn` sends on the old socket, in the close hook, and on the new one. -/
theorem sends_cleanConn {c c' : TcpClient} {env : CleanEnv}
    (hclean : c.cleanConn env = Except.ok c') :
    ∃ old : TcpClient, Sends c old ∧
      Sends (old.openSocket env.connect.socket env.connect.connect) c' := by
  have hclosed : Sends c c.closeSocket := by
    have hdel := Sends.loop (c.loop.delIoEvent c.sockfd) (Sends.refl : Sends c c)
    unfold closeSocket
    split
    · exact hdel.closeFd c.sockfd
    · exact Sends.refl
  unfold cleanConn at hclean
  split at hclean
  · cases hclean
  · rename_i old hhook
    exact ⟨old, hclosed.trans (sends_closeHook hhook), sends_doConnect hclean⟩

/-! The input buffer and the router calls stay as they are. -/

theorem Sends.input {c c' : TcpClient} (sends : Sends c c') :
    c'.ibuf = c.ibuf ∧ c'.calls = c.calls := by
  induction sends with
  | refl => exact ⟨rfl, rfl⟩
  | send _ hsend ih =>
    unfold sendMessage at hsend
    split at hsend
    · cases hsend
    · cases hsend
      exact ih
  | loop loop _ ih => exact ih
  | closed closed _ ih => exact ih
  | startCalls startCalls _ ih => exact ih

theorem openSocket_input (c : TcpClient) (socket : Int) (connect : ConnectResult) :
    (c.openSocket socket connect).ibuf = c.ibuf ∧
      (c.openSocket socket connect).calls = c.calls := by
  unfold openSocket
  split <;> exact ⟨rfl, rfl⟩

theorem cleanConn_input {c c' : TcpClient} {clean : CleanEnv}
    (hclean : c.cleanConn clean = Except.ok c') :
    c'.ibuf = c.ibuf ∧ c'.calls = c.calls := by
  obtain ⟨old, hold, hnew⟩ := sends_cleanConn hclean
  have hopen := old.openSocket_input clean.connect.socket clean.connect.connect
  exact ⟨hnew.input.1.trans (hopen.1.trans hold.input.1),
    hnew.input.2.trans (hopen.2.trans hold.input.2)⟩

/-! ## How a reconnect can end the process

In `send_data` on behalf of a hook, or in `exit(1)`. -/

def CleanFault (fault : Fault) : Prop :=
  fault = Fault.sendAssert ∨ fault = Fault.outOfBounds ∨ fault = Fault.exitCall

theorem sendAll_fault {c : TcpClient} {sends : HookSends} {fault : Fault}
    (hsend : c.sendAll sends = Except.error fault) : CleanFault fault := by
  induction sends generalizing c with
  | nil => cases hsend
  | cons send sends ih =>
    obtain ⟨m, env⟩ := send
    rw [sendAll] at hsend
    split at hsend
    · rename_i hfirst
      cases hsend
      unfold sendMessage at hfirst
      split at hfirst
      · rename_i hqueue
        cases hfirst
        exact (queueMessage_fault hqueue).imp id Or.inl
      · cases hfirst
    · exact ih hsend

theorem startHook_fault {c : TcpClient} {sends : HookSends} {fault : Fault}
    (hhook : c.startHook sends = Except.error fault) : CleanFault fault := by
  unfold startHook at hhook
  split at hhook
  · exact sendAll_fault hhook
  · cases hhook

theorem closeHook_fault {c : TcpClient} {sends : HookSends} {fault : Fault}
    (hhook : c.closeHook sends = Except.error fault) : CleanFault fault := by
  unfold closeHook at hhook
  split at hhook
  · exact sendAll_fault hhook
  · cases hhook

theorem connectionSucc_fault {c : TcpClient} {fd : Int} {env : SuccEnv} {fault : Fault}
    (hsucc : c.connectionSucc fd env = Except.error fault) : CleanFault fault := by
  unfold connectionSucc at hsucc
  simp only at hsucc
  split at hsucc
  · split at hsucc
    · rename_i hhook
      cases hsucc
      exact startHook_fault hhook
    · cases hsucc
  · cases hsucc

theorem doConnect_fault {c : TcpClient} {env : ConnectEnv} {fault : Fault}
    (hconnect : c.doConnect env = Except.error fault) : CleanFault fault := by
  unfold doConnect at hconnect
  simp only at hconnect
  split at hconnect
  · cases hconnect
    exact Or.inr (Or.inr rfl)
  · split at hconnect
    · split at hconnect
      · rename_i hhook
        cases hconnect
        exact startHook_fault hhook
      · exact connectionSucc_fault hconnect
    · cases hconnect
    · cases hconnect
      exact Or.inr (Or.inr rfl)

theorem cleanConn_fault {c : TcpClient} {env : CleanEnv} {fault : Fault}
    (hclean : c.cleanConn env = Except.error fault) : CleanFault fault := by
  unfold cleanConn at hclean
  split at hclean
  · rename_i hhook
    cases hclean
    exact closeHook_fault hhook
  · exact doConnect_fault hclean

end TcpClient

end LarsSystem.Reactor
