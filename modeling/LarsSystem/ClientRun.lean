import LarsSystem.Arrival
import LarsSystem.TcpClient
import LarsSystem.Transition

/-!
# Runs of a `tcp_client`

A client in its event loop: `send_message` at any time, the end of a pending
`connect`, and fired events, for which the loop calls whatever is registered. A
fired event may read, write, complete a connect, and on the way disconnect and
open the next socket. Other descriptors on the same loop may change as they like.
-/

namespace LarsSystem.Reactor

open LarsSystem.MachineWord
open LarsSystem.LengthFraming
open LarsSystem.Transition

/-- What a callback meets: what has arrived, the answers of `write`, and the
    environment of a disconnect and of a completed connect. -/
structure FireEnv where
  arrival : Arrival
  stale : List Byte
  results : List WriteResult
  clean : CleanEnv
  succ : SuccEnv

inductive ClientEvent where
  | settle (accepted : Bool)
  | send (m : Message) (env : SendEnv)
  | fire (fired : Mask) (env : FireEnv)
  | setConnStart (registered : Bool)
  | setConnClose (registered : Bool)
  | others (loop : EventLoop ClientCallback)

theorem ok_of_mapError {α ε ε' : Type} {f : ε → ε'} {x : Except ε α} {a : α}
    (hok : x.mapError f = Except.ok a) : x = Except.ok a := by
  cases x with
  | error e => cases hok
  | ok b => exact congrArg Except.ok (Except.ok.inj hok)

namespace TcpClient

def callback (c : TcpClient) (env : FireEnv) : ClientCallback → Except Fault TcpClient
  | .clientRdCallback => (c.doRead (env.arrival.env env.stale) env.clean).mapError Crash.fault
  | .clientWrCallback => c.doWrite env.results env.clean
  | .connectionSucc => c.connectionSucc c.sockfd env.succ

/-- The first event after the end of a `connect` is the one that reports it. -/
def markCompleted (c : TcpClient) : TcpClient :=
  { c with
    completed := true
    startDue := if c.completed then c.startDue else c.connStartCb }

/-- `event_process` for a fired event of the client's socket. -/
def fire (c : TcpClient) (fired : Mask) (env : FireEnv) : Except Fault TcpClient :=
  match c.loop.dispatch c.sockfd fired with
  | .missing => Except.error Fault.loopAssert
  | .callNull => Except.error Fault.nullCall
  | .call proc => c.markCompleted.callback env proc
  | .remove => Except.ok { c.markCompleted with loop := c.loop.delIoEvent c.sockfd }

/-- `socket` returns a descriptor that is not open: the one just closed, or one that is
    not in the epoll set. -/
def FreshSocket (loop : EventLoop ClientCallback) (sockfd socket : Int) : Prop :=
  socket = sockfd ∨ loop.kernel socket = none

/-- What the kernel answers in a disconnect: a new descriptor, and no registration of the
    closed one, for which the close hook may ask. -/
def Disconnects (c : TcpClient) (clean : CleanEnv) : Prop :=
  FreshSocket c.loop c.sockfd clean.connect.socket ∧
    ∀ send ∈ clean.closeSends, send.2.ctlOk = false

/-- The kernel reports an event only for a socket whose connect has ended, and only
    registered directions of it. -/
def Reportable (c : TcpClient) (fired : Mask) : Prop :=
  c.phase ≠ .connecting ∧ ∃ mask, c.loop.kernel c.sockfd = some mask ∧
    (fired.epollin = true → mask.epollin = true) ∧
    (fired.epollout = true → mask.epollout = true)

def step (c : TcpClient) (event : ClientEvent) (c' : TcpClient) : Prop :=
  match event with
  | .settle accepted =>
    c.phase = .connecting ∧
      c' = { c with phase := if accepted then .established else .refused }
  | .send m env => ∃ ret, c.sendMessage m env = Except.ok (ret, c')
  | .fire fired env =>
    c.Reportable fired ∧ c.Disconnects env.clean ∧ c.fire fired env = Except.ok c'
  | .setConnStart registered => c' = { c with connStartCb := registered }
  | .setConnClose registered => c' = { c with connCloseCb := registered }
  | .others loop =>
    loop.ioEvs c.sockfd = c.loop.ioEvs c.sockfd ∧ loop.kernel c.sockfd = c.loop.kernel c.sockfd ∧
      c' = { c with loop := loop }

/-- A client just made; its socket is a new descriptor. -/
def Created (env : ConnectEnv) (c : TcpClient) : Prop :=
  ∃ loop : EventLoop ClientCallback, loop.kernel env.socket = none ∧
    create loop env = Except.ok c

/-! ## What an event is, by the callback it reaches -/

section Fire

variable {c c' : TcpClient} {fired : Mask} {env : FireEnv}

/-- A fired event runs one of the three callbacks, or removes the socket's entry. -/
theorem fire_cases (hfire : c.fire fired env = Except.ok c') :
    (c.loop.dispatch c.sockfd fired = .call .clientRdCallback ∧
      c.markCompleted.doRead (env.arrival.env env.stale) env.clean = Except.ok c') ∨
    (c.loop.dispatch c.sockfd fired = .call .clientWrCallback ∧
      c.markCompleted.doWrite env.results env.clean = Except.ok c') ∨
    (c.loop.dispatch c.sockfd fired = .call .connectionSucc ∧
      c.markCompleted.connectionSucc c.sockfd env.succ = Except.ok c') ∨
    (c.loop.dispatch c.sockfd fired = .remove ∧
      c' = { c.markCompleted with loop := c.loop.delIoEvent c.sockfd }) := by
  unfold fire at hfire
  split at hfire
  · cases hfire
  · cases hfire
  · rename_i proc hproc
    cases proc with
    | clientRdCallback =>
      exact Or.inl ⟨hproc, ok_of_mapError hfire⟩
    | clientWrCallback => exact Or.inr (Or.inl ⟨hproc, hfire⟩)
    | connectionSucc => exact Or.inr (Or.inr (Or.inl ⟨hproc, hfire⟩))
  · rename_i hremove
    cases hfire
    exact Or.inr (Or.inr (Or.inr ⟨hremove, rfl⟩))

end Fire

/-- How `do_read` ends: what was stored is dispatched and there is no malformed
    header, or the client disconnects, with what was stored before it. -/
theorem doRead_cases {c c' : TcpClient} {a : Arrival} {stale : List Byte} {clean : CleanEnv}
    (hready : c.ibuf.Ready) (hread : c.doRead (a.env stale) clean = Except.ok c') :
    (∃ rest : ReactorBuf, a.Stored c.ibuf ∧
      rest.content = (parse msgCodec (c.ibuf.content ++ a.bytes)).rest ∧
      (parse msgCodec (c.ibuf.content ++ a.bytes)).malformed = false ∧
      c' = c.afterChunk a.bytes rest.adjust) ∨
    (∃ (rest : ReactorBuf) (d : TcpClient), a.Stored c.ibuf ∧
      rest.content = (parse msgCodec (c.ibuf.content ++ a.bytes)).rest ∧
      (parse msgCodec (c.ibuf.content ++ a.bytes)).malformed = true ∧
      (c.afterChunk a.bytes rest).cleanConn clean = Except.ok d ∧
      c' = { d with ibuf := d.ibuf.adjust }) ∨
    (∃ ibuf : ReactorBuf, ¬ a.Stored c.ibuf ∧ ibuf.Ready ∧ ibuf.content = c.ibuf.content ∧
      { c with ibuf := ibuf }.cleanConn clean = Except.ok c') := by
  by_cases hstored : a.Stored c.ibuf
  · obtain ⟨filled, hdata, hfilled⟩ := readData_stored stale hready hstored
    have hpos := hstored.bytes_pos
    by_cases htail : (parse msgCodec (c.ibuf.content ++ a.bytes)).EndsEmpty
    · -- the process ends in the loop
      rw [← hfilled] at htail
      obtain ⟨crash, hloop, -⟩ := dispatchLoop_endsEmpty filled c.calls htail
      simp only [doRead, hdata, hloop] at hread
      rw [if_neg (by omega), if_neg (by omega)] at hread
      cases hread
    · obtain ⟨rest, hrest, hdispatch⟩ :=
        doRead_dispatch clean hdata hfilled (List.length_pos_iff.mp hpos) htail
      rw [hdispatch] at hread
      split at hread
      · rename_i hbad
        split at hread
        · cases hread
        · rename_i d hclean
          cases hread
          exact Or.inr (Or.inl ⟨rest, d, hstored, hrest, hbad, hclean, rfl⟩)
      · rename_i hok
        cases hread
        exact Or.inl ⟨rest, hstored, hrest, by simpa using hok, rfl⟩
  · rcases readData_not_stored stale hready hstored with
      ⟨ret, ibuf, hdata, hret, hready', hcontent⟩ | herror
    · refine Or.inr (Or.inr ⟨ibuf, hstored, hready', hcontent, ?_⟩)
      have hnothing : ibuf.content.drop c.ibuf.length = [] := by
        rw [hcontent]
        exact List.drop_eq_nil_of_le (Nat.le_of_eq (ReactorBuf.content_length _))
      have hclean : ({ c with ibuf := ibuf }.cleanConn clean).mapError (⟨·, c.calls⟩) =
          (Except.ok c' : Except Crash TcpClient) := by
        simp only [doRead, hdata, hnothing, List.append_nil] at hread
        rcases hret with rfl | rfl <;> exact hread
      exact ok_of_mapError hclean
    · simp only [doRead, herror] at hread
      cases hread

/-! ### A first connection on descriptor 7 and a second on descriptor 8 -/

def firstSocket : ConnectEnv := ⟨7, .inProgress, [], true, true, ⟨[], true, true⟩⟩

def secondSocket : CleanEnv := ⟨[], ⟨8, .inProgress, [], true, true, ⟨[], true, true⟩⟩⟩

def meets (arrival : Arrival) : FireEnv := ⟨arrival, [], [], secondSocket, ⟨[], true, true⟩⟩

end TcpClient

end LarsSystem.Reactor
