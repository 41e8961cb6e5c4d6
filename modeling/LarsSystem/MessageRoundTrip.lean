import LarsSystem.NetConnection
import LarsSystem.Transition

/-!
# Messages from `send_message` to the peer's router

One established connection: a sender that queues and writes, the bytes on the
way, and a receiver that reads them in any chunks. Sender and receiver are any
two of `tcp_conn` and `tcp_client`. The bytes of the accepted messages are
conserved: what has arrived, what is on the way and what is pending make up their
stream, and the receiver stands where the reference parser stands after what has
arrived.

The two ends do not agree on what a message is. The reader refuses bodies above
`MESSAGE_LENGTH_LIMIT` and aborts on an empty body that ends a read; the sender
accepts both, and its undo of a message that does not fit takes bytes of an older
one. Without these the round trip holds (`channel_delivers`).
-/

namespace LarsSystem.Reactor

open LarsSystem.MachineWord
open LarsSystem.LengthFraming
open LarsSystem.Transition

/-! ## The connection -/

structure Channel where
  sender : NetConnection
  wire : List Byte
  receiver : NetConnection

/-- A `send_message`, a write event whose `write` calls take the given amounts, or the
    arrival of up to `count` bytes at the receiver. -/
inductive ChannelEvent where
  | send (m : Message) (env : SendEnv)
  | write (amounts : List Nat) (clean : CleanEnv)
  | deliver (count : Nat) (stale : List Byte) (clean : CleanEnv)

namespace Channel

def step (ch : Channel) : ChannelEvent → Except Fault Channel
  | .send m env =>
    match ch.sender.sendMessage m env with
    | Except.error fault => Except.error fault
    | Except.ok (_, sender) => Except.ok { ch with sender := sender }
  | .write amounts clean =>
    match ch.sender.doWrite (amounts.map WriteResult.took) clean with
    | Except.error fault => Except.error fault
    | Except.ok sender =>
      Except.ok { ch with
        sender := sender
        wire := ch.wire ++ sender.written.drop ch.sender.written.length }
  | .deliver count stale clean =>
    let chunk := ch.wire.take count
    if chunk = [] ∨ ch.receiver.getFd = -1 then Except.ok ch
    else
      match ch.receiver.doRead ⟨some chunk.length, some chunk, stale⟩ clean with
      | Except.error crash => Except.error crash.fault
      | Except.ok receiver =>
        Except.ok { ch with wire := ch.wire.drop count, receiver := receiver }

/-- An established connection on which nothing has been sent. -/
structure Fresh (ch : Channel) : Prop where
  sender : ch.sender.obuf = ReactorBuf.empty
  accepted : ch.sender.accepted = []
  wire : ch.wire = []
  receiver : ch.receiver.ibuf = ReactorBuf.empty
  calls : ch.receiver.calls = []
  established : ch.receiver.getFd ≠ -1

/-- The router calls that the accepted messages should lead to. -/
def expected (ch : Channel) : List RouterCall :=
  ch.sender.accepted.map fun m => ⟨m.msgid, m.body.length, some m.body⟩

/-- **What the round trip promises**: the receiver has dispatched the first of the
    accepted messages, in order and once each, all of them when nothing is left
    on the way, and it has not closed the connection. -/
structure Delivered (closed : List Int) (ch : Channel) : Prop where
  inOrder : ch.receiver.calls <+: ch.expected
  complete : ch.wire = [] → ch.sender.obuf.length = 0 → ch.receiver.calls = ch.expected
  notRefused : ch.receiver.closed = closed

/-- Where the two ends agree: an accepted message is within the reader's limit, no
    body is refused behind pending bytes, no sum of lengths leaves the `int`
    range; a read fits the largest block and does not end in an empty frame. -/
def WithinLimits (ch : Channel) : ChannelEvent → Prop
  | .send m _ =>
    (ch.sender.obuf.length + m.bytes.length ≤ maxBytes → m.body.length ≤ messageLengthLimit) ∧
      (maxBytes < ch.sender.obuf.length + m.bytes.length →
        ch.sender.obuf.length = 0 ∨ maxBytes < ch.sender.obuf.length + messageHeadLen) ∧
      (ch.sender.obuf.length + messageHeadLen ≤ maxBytes →
        ch.sender.obuf.length + m.bytes.length < 2 ^ 31)
  | .write _ _ => True
  | .deliver count _ _ =>
    ch.receiver.ibuf.length + (ch.wire.take count).length ≤ maxBytes ∧
      ¬ (parse msgCodec (ch.receiver.ibuf.content ++ ch.wire.take count)).EndsEmpty

/-! ## The invariant -/

/-- After `arrived`: the bytes of the accepted messages are conserved, every accepted
    message is within the limit, and the receiver stands where the parser does. -/
structure Conserved (closed : List Int) (ch : Channel) (arrived : List Byte) : Prop where
  stream : Message.stream ch.sender.accepted = arrived ++ ch.wire ++ ch.sender.obuf.content
  limit : ∀ m ∈ ch.sender.accepted, m.body.length ≤ messageLengthLimit
  sendReady : ch.sender.obuf.Ready
  readReady : ch.receiver.ibuf.Ready
  unread : ch.receiver.ibuf.content = (parse msgCodec arrived).rest
  calls : ch.receiver.calls = (parse msgCodec arrived).frames.map RouterCall.ofFrame
  established : ch.receiver.getFd ≠ -1
  closed : ch.receiver.closed = closed

theorem expected_eq (ch : Channel) :
    ch.expected = (ch.sender.accepted.map Message.frame).map RouterCall.ofFrame := by
  rw [List.map_map]
  rfl

section Invariant

variable {closed : List Int} {ch : Channel} {arrived : List Byte}

theorem Conserved.announced (conserved : Conserved closed ch arrived) :
    ∀ frame ∈ ch.sender.accepted.map Message.frame, Announced msgCodec frame := by
  intro frame hframe
  obtain ⟨m, hm, rfl⟩ := List.mem_map.mp hframe
  exact (Message.announced_iff m).mpr (conserved.limit m hm)

/-- What has arrived begins the stream of the accepted messages. -/
theorem Conserved.arrived_parse (conserved : Conserved closed ch arrived) :
    (parse msgCodec arrived).malformed = false ∧
      (parse msgCodec arrived).frames <+: ch.sender.accepted.map Message.frame := by
  have hsplit : arrived ++ (ch.wire ++ ch.sender.obuf.content) =
      encodeFrames msgCodec (ch.sender.accepted.map Message.frame) := by
    rw [← List.append_assoc, ← conserved.stream, Message.stream_eq]
  exact parse_initialSegment msgCodec _ conserved.announced hsplit

theorem Conserved.delivered (conserved : Conserved closed ch arrived) : Delivered closed ch := by
  constructor
  · rw [conserved.calls, expected_eq]
    exact conserved.arrived_parse.2.map _
  · intro hwire hpending
    have hempty : ch.sender.obuf.content = [] :=
      List.length_eq_zero_iff.mp (by rw [ReactorBuf.content_length, hpending])
    have hstream := conserved.stream
    rw [hwire, hempty, List.append_nil, List.append_nil, Message.stream_eq] at hstream
    have hparse := parse_encodeFrames_append msgCodec _ conserved.announced []
    rw [List.append_nil, hstream, parse_nil] at hparse
    rw [conserved.calls, expected_eq, hparse]
    simp [Parsed.prepend]
  · exact conserved.closed

/-! ### One event -/

theorem Conserved.send (conserved : Conserved closed ch arrived) {m : Message} (env : SendEnv)
    (hlimits : ch.WithinLimits (.send m env)) :
    ∃ ch', ch.step (.send m env) = Except.ok ch' ∧ Conserved closed ch' arrived := by
  obtain ⟨hlimit, hpops, hsmall⟩ := hlimits
  have hready := conserved.sendReady
  by_cases hfits : ch.sender.obuf.length + m.bytes.length ≤ maxBytes
  · obtain ⟨sender, hsend, hready', hcontent, haccepted, -⟩ :=
      NetConnection.sendMessage_accepted env hready hfits
    refine ⟨{ ch with sender := sender }, by simp only [step, hsend], ?_⟩
    constructor
    · simp only [haccepted, hcontent, Message.stream_append, Message.stream_singleton,
        conserved.stream, List.append_assoc]
    · intro other hother
      rw [haccepted] at hother
      rcases List.mem_append.mp hother with hold | hnew
      · exact conserved.limit other hold
      · rw [List.mem_singleton.mp hnew]
        exact hlimit hfits
    · exact hready'
    · exact conserved.readReady
    · exact conserved.unread
    · exact conserved.calls
    · exact conserved.established
    · exact conserved.closed
  · -- refused: the buffer keeps its bytes, or was and is empty
    have hrefused : ∃ obuf : ReactorBuf, obuf.Ready ∧ obuf.content = ch.sender.obuf.content ∧
        queueMessage ch.sender.obuf m env = Except.ok (-1, obuf, false) := by
      by_cases hhead : ch.sender.obuf.length + messageHeadLen ≤ maxBytes
      · have hempty : ch.sender.obuf.length = 0 := by
          rcases hpops (by omega) with h | h <;> omega
        rcases queueMessage_bodyRefused (m := m) env hready hhead (by omega) with
          ⟨hwraps, -⟩ | ⟨-, obuf, hqueue, -, hnone, -⟩
        · have := hsmall hhead
          omega
        · rw [hnone hempty] at hqueue
          refine ⟨ReactorBuf.empty, ReactorBuf.ready_empty, ?_, hqueue⟩
          exact (List.length_eq_zero_iff.mp (by rw [ReactorBuf.content_length, hempty])).symm
      · exact ⟨_, hready, rfl, queueMessage_headRefused env hready (by omega)⟩
    obtain ⟨obuf, hready', hcontent, hqueue⟩ := hrefused
    have hsend := NetConnection.sendMessage_failed hqueue
    have haccepted : (ch.sender.withObuf obuf).accepted = ch.sender.accepted := by
      cases ch.sender <;> rfl
    refine ⟨{ ch with sender := ch.sender.withObuf obuf }, by simp only [step, hsend], ?_⟩
    constructor
    · simp only [haccepted, NetConnection.withObuf_obuf, hcontent, conserved.stream]
    · simp only [haccepted]
      exact conserved.limit
    · simp only [NetConnection.withObuf_obuf]
      exact hready'
    · exact conserved.readReady
    · exact conserved.unread
    · exact conserved.calls
    · exact conserved.established
    · exact conserved.closed

theorem writeLoop_took_ok {obuf : ReactorBuf} (amounts : List Nat) (hready : obuf.Ready) :
    ∃ (obuf' : ReactorBuf) (taken : List Byte),
      writeLoop obuf (amounts.map WriteResult.took) = Except.ok (obuf', taken, false) ∧
      obuf'.Ready ∧ obuf.content = taken ++ obuf'.content := by
  obtain ⟨obuf', taken, failed, hloop, hready', hcontent, hfailed⟩ :=
    writeLoop_ready (amounts.map WriteResult.took) hready
  cases failed with
  | true =>
    obtain ⟨n, -, hn⟩ := List.mem_map.mp (hfailed rfl).2
    cases hn
  | false => exact ⟨obuf', taken, hloop, hready', hcontent⟩

theorem Conserved.write (conserved : Conserved closed ch arrived) (amounts : List Nat)
    (clean : CleanEnv) :
    ∃ ch', ch.step (.write amounts clean) = Except.ok ch' ∧ Conserved closed ch' arrived := by
  obtain ⟨obuf, taken, hloop, hready', hcontent⟩ :=
    writeLoop_took_ok amounts conserved.sendReady
  obtain ⟨sender, hwrite, hobuf, haccepted, hwritten⟩ :=
    NetConnection.doWrite_of_writeLoop clean hloop
  refine ⟨⟨sender, ch.wire ++ taken, ch.receiver⟩, ?_, ?_⟩
  · simp only [step, hwrite, hwritten, List.drop_left]
  · constructor
    · simp only [haccepted, hobuf, conserved.stream, hcontent, List.append_assoc]
    · simp only [haccepted]
      exact conserved.limit
    · simp only [hobuf]
      exact hready'
    · exact conserved.readReady
    · exact conserved.unread
    · exact conserved.calls
    · exact conserved.established
    · exact conserved.closed

theorem Conserved.deliver (conserved : Conserved closed ch arrived) (count : Nat)
    (stale : List Byte) (clean : CleanEnv)
    (hlimits : ch.WithinLimits (.deliver count stale clean)) :
    ∃ ch', ch.step (.deliver count stale clean) = Except.ok ch' ∧
      ∃ arrived', Conserved closed ch' arrived' := by
  obtain ⟨hfits, htail⟩ := hlimits
  by_cases hempty : ch.wire.take count = []
  · exact ⟨ch, by simp only [step, hempty, true_or, if_true], arrived, conserved⟩
  · have hok := conserved.arrived_parse.1
    have hparse := parse_append msgCodec arrived (ch.wire.take count) hok
    rw [← conserved.unread] at hparse
    -- the longer prefix is still a prefix of the stream
    have hsplit : (arrived ++ ch.wire.take count) ++
        (ch.wire.drop count ++ ch.sender.obuf.content) =
        encodeFrames msgCodec (ch.sender.accepted.map Message.frame) := by
      rw [← Message.stream_eq, conserved.stream]
      simp only [List.append_assoc]
      rw [← List.append_assoc (ch.wire.take count), List.take_append_drop]
    have hok' := (parse_initialSegment msgCodec _ conserved.announced hsplit).1
    rw [hparse] at hok'
    obtain ⟨receiver, hread, hready', hcontent, hcalls, hfd, hclosed⟩ :=
      NetConnection.doRead_chunk stale clean conserved.readReady hempty hfits htail hok'
    refine ⟨{ ch with wire := ch.wire.drop count, receiver := receiver }, ?_,
      arrived ++ ch.wire.take count, ?_⟩
    · simp only [step, hempty, conserved.established, or_self, if_false, hread]
    · constructor
      · rw [Message.stream_eq, ← hsplit]
        simp only [List.append_assoc]
      · exact conserved.limit
      · exact conserved.sendReady
      · exact hready'
      · rw [hparse]
        exact hcontent
      · rw [hparse, hcalls, conserved.calls]
        simp [Parsed.prepend]
      · rw [hfd]
        exact conserved.established
      · rw [hclosed]
        exact conserved.closed

end Invariant

/-- **The message layer is a faithful FIFO where the two ends agree.** On a fresh
    connection, in every run of sends, partial writes and reads in any chunks
    whose events stay within the limits, no operation aborts, and in every state
    the accepted messages are delivered. -/
theorem channel_delivers (ch : Channel) (hfresh : ch.Fresh) (events : List ChannelEvent)
    (hlimits : Meets step WithinLimits ch events) :
    Safe step (Delivered ch.receiver.closed) (fun _ => False) ch events := by
  have hstart : ∃ arrived, Conserved ch.receiver.closed ch arrived := by
    refine ⟨[], ?_⟩
    constructor
    · rw [hfresh.accepted, hfresh.wire, hfresh.sender]
      rfl
    · rw [hfresh.accepted]
      intro m hm
      cases hm
    · rw [hfresh.sender]
      exact ReactorBuf.ready_empty
    · rw [hfresh.receiver]
      exact ReactorBuf.ready_empty
    · rw [hfresh.receiver, parse_nil]
      rfl
    · rw [hfresh.calls, parse_nil]
      rfl
    · exact hfresh.established
    · rfl
  apply safe_of_meets (fun ch' => ∃ arrived, Conserved ch.receiver.closed ch' arrived)
  · rintro ch' ⟨arrived, conserved⟩
    exact conserved.delivered
  · rintro ch' event ⟨arrived, conserved⟩ hevent
    cases event with
    | send m env =>
      obtain ⟨next, hstep, hnext⟩ := conserved.send env hevent
      rw [hstep]
      exact ⟨arrived, hnext⟩
    | write amounts clean =>
      obtain ⟨next, hstep, hnext⟩ := conserved.write amounts clean
      rw [hstep]
      exact ⟨arrived, hnext⟩
    | deliver count stale clean =>
      obtain ⟨next, hstep, hnext⟩ := conserved.deliver count stale clean hevent
      rw [hstep]
      exact hnext
  · exact hstart
  · exact hlimits

/-! ### One message over a fresh connection -/

/-- A fresh connection takes any message that fits, and one `write` may take all of
    it. -/
theorem sent_whole {ch : Channel} (hfresh : ch.Fresh) (m : Message) (env : SendEnv)
    (clean : CleanEnv) (hfits : m.bytes.length ≤ maxBytes) {amount : Nat}
    (hamount : m.bytes.length ≤ amount) :
    ∃ ch₁ ch₂, ch.step (.send m env) = Except.ok ch₁ ∧
      ch₁.step (.write [amount] clean) = Except.ok ch₂ ∧
      ch₁.receiver = ch.receiver ∧ ch₂.receiver = ch.receiver ∧ ch₂.wire = m.bytes := by
  have hpending : ch.sender.obuf.length = 0 := by
    rw [hfresh.sender]
    rfl
  have hready : ch.sender.obuf.Ready := by
    rw [hfresh.sender]
    exact ReactorBuf.ready_empty
  obtain ⟨sender, hsend, hready', hcontent, -, -⟩ :=
    NetConnection.sendMessage_accepted (m := m) env hready (by omega)
  have hcontent' : sender.obuf.content = m.bytes := by
    rw [hcontent, hfresh.sender]
    rfl
  have hlen : sender.obuf.length = m.bytes.length := by
    rw [← ReactorBuf.content_length, hcontent']
  have hpos : 0 < sender.obuf.length := by
    have hhead : messageHeadLen = 8 := rfl
    rw [hlen, m.bytes_length]
    omega
  have hmin : min amount sender.obuf.length = sender.obuf.length := by omega
  obtain ⟨rest, -, hrest, hloop⟩ := writeLoop_took amount [] hready' hpos
  have hdone : rest.length = 0 := by
    rw [← ReactorBuf.content_length, hrest, List.length_drop, ReactorBuf.content_length, hmin,
      Nat.sub_self]
  rw [if_neg (by omega), writeLoop_empty [] hdone] at hloop
  obtain ⟨sender', hwrite, -, -, hwritten⟩ := NetConnection.doWrite_of_writeLoop clean hloop
  have htaken : sender'.written = sender.written ++ m.bytes := by
    rw [hwritten, hmin, hcontent', hlen, List.take_length, List.append_nil]
  refine ⟨{ ch with sender := sender }, ⟨sender', m.bytes, ch.receiver⟩,
    by simp only [step, hsend], ?_, rfl, rfl, rfl⟩
  simp only [step, List.map_cons, List.map_nil, hwrite, htaken, List.drop_left, hfresh.wire,
    List.nil_append]

/-- Two new connections at either end. -/
def newChannel : Channel :=
  { sender := .conn (TcpConn.create 7 EventLoop.empty ⟨fun _ => false, 0⟩ true)
    wire := []
    receiver := .conn (TcpConn.create 8 EventLoop.empty ⟨fun _ => false, 0⟩ true) }

theorem newChannel_fresh : newChannel.Fresh := by
  constructor <;> first | rfl | decide

/-- A server that reads a malformed header closes the connection. -/
theorem deliver_malformed {ch : Channel} {c : TcpConn} (count : Nat) (stale : List Byte)
    (clean : CleanEnv) (hconn : ch.receiver = .conn c) (hopen : c.connfd ≠ -1)
    (hready : c.ibuf.Ready) (hne : ch.wire.take count ≠ [])
    (hfits : c.ibuf.length + (ch.wire.take count).length ≤ maxBytes)
    (hbad : (parse msgCodec (c.ibuf.content ++ ch.wire.take count)).malformed = true) :
    ∃ ch', ch.step (.deliver count stale clean) = Except.ok ch' ∧
      ch'.receiver.closed = c.closed ++ [c.connfd] := by
  have hfd : ch.receiver.getFd ≠ -1 := by
    rw [hconn]
    exact hopen
  obtain ⟨closed, hread, hclosed⟩ : ∃ closed, ch.receiver.doRead
      ⟨some (ch.wire.take count).length, some (ch.wire.take count), stale⟩ clean =
        Except.ok closed ∧ closed.closed = c.closed ++ [c.connfd] := by
    rw [hconn, NetConnection.doRead, TcpConn.doRead_malformed stale hready hne hfits hbad]
    exact ⟨_, rfl, rfl⟩
  refine ⟨{ ch with wire := ch.wire.drop count, receiver := closed }, ?_, hclosed⟩
  simp only [step, hne, hfd, or_self, if_false, hread]

/-- A fresh connection to a server accepts an oversized message that fits, and the
    server refuses it. -/
theorem oversized_not_delivered {ch : Channel} {c : TcpConn} (hfresh : ch.Fresh)
    (hconn : ch.receiver = .conn c) {m : Message} (env : SendEnv) (clean : CleanEnv)
    (hlong : messageLengthLimit < m.body.length) (hfits : m.bytes.length ≤ maxBytes) :
    ¬ Safe step (Delivered ch.receiver.closed) (fun _ => False) ch
      [.send m env, .write [m.bytes.length] clean, .deliver m.bytes.length [] clean] := by
  have hempty : c.ibuf = ReactorBuf.empty := by
    have hibuf := hfresh.receiver
    rwa [hconn] at hibuf
  have hopen : c.connfd ≠ -1 := by
    have hfd := hfresh.established
    rwa [hconn] at hfd
  obtain ⟨ch₁, ch₂, hsend, hwrite, -, hreceiver, hwire⟩ :=
    sent_whole hfresh m env clean hfits (Nat.le_refl _)
  have htake : ch₂.wire.take m.bytes.length = m.bytes := by
    rw [hwire, List.take_length]
  have hnil : c.ibuf.content ++ m.bytes = m.bytes := by
    rw [hempty]
    rfl
  -- the receiver stops at the header and closes
  obtain ⟨ch₃, hdeliver, hclosed⟩ := deliver_malformed m.bytes.length [] clean
    (hreceiver.trans hconn) hopen (by rw [hempty]; exact ReactorBuf.ready_empty)
    (by
      rw [htake]
      apply List.length_pos_iff.mp
      rw [m.bytes_length]
      exact Nat.add_pos_left (by decide) _)
    (by
      have hzero : c.ibuf.length = 0 := by rw [hempty]; rfl
      rw [htake]
      omega)
    (by rw [htake, hnil, m.parse_bytes_oversized hlong])
  rintro ⟨-, hsafe⟩
  rw [hsend] at hsafe
  obtain ⟨-, hsafe⟩ := hsafe
  rw [hwrite] at hsafe
  obtain ⟨-, hsafe⟩ := hsafe
  rw [hdeliver] at hsafe
  have hdelivered : Delivered ch.receiver.closed ch₃ := hsafe
  rw [hdelivered.notRefused, hconn] at hclosed
  exact absurd hclosed (by simp [NetConnection.closed])

/-- One byte more than the reader's limit. -/
def oversizedMessage : Message :=
  ⟨1, List.replicate 65528 0, by rw [List.length_replicate]; decide⟩

theorem oversized_refused :
    ¬ Safe step (Delivered []) (fun _ => False) newChannel
      [.send oversizedMessage ⟨[], [], true⟩,
        .write [oversizedMessage.bytes.length] NetConnection.noReconnect,
        .deliver oversizedMessage.bytes.length [] NetConnection.noReconnect] := by
  have hbody : oversizedMessage.body.length = 65528 := List.length_replicate
  have hlimit : messageLengthLimit = 65527 := rfl
  have hhead : messageHeadLen = 8 := rfl
  have hmax : maxBytes = 8388608 := rfl
  have hlen := oversizedMessage.bytes_length
  exact oversized_not_delivered newChannel_fresh rfl _ _ (by omega) (by omega)

/-- A message of one byte goes through. -/
theorem channel_delivers_short :
    Safe step (Delivered []) (fun _ => False) newChannel
      [.send ⟨1, [65], by decide⟩ ⟨[], [], true⟩, .write [9] NetConnection.noReconnect,
        .deliver 9 [] NetConnection.noReconnect] := by
  apply channel_delivers newChannel newChannel_fresh
  obtain ⟨ch₁, ch₂, hsend, hwrite, -, hreceiver, hwire⟩ :=
    sent_whole newChannel_fresh ⟨1, [65], by decide⟩ ⟨[], [], true⟩ NetConnection.noReconnect
      (by decide) (Nat.le_refl 9)
  have hparse := Message.parse_bytes ⟨1, [65], by decide⟩ (by decide)
  refine ⟨⟨fun _ => by decide, fun _ => Or.inl rfl, fun _ => by decide⟩, ?_⟩
  intro ch hch
  cases hsend.symm.trans hch
  refine ⟨trivial, ?_⟩
  intro ch hch
  cases hwrite.symm.trans hch
  refine ⟨?_, fun _ _ => trivial⟩
  have htake : ch₂.wire.take 9 = Message.bytes ⟨1, [65], by decide⟩ := by
    rw [hwire]
    rfl
  rw [WithinLimits, hreceiver, htake]
  change _ ∧ ¬ (parse msgCodec (Message.bytes ⟨1, [65], _⟩)).EndsEmpty
  rw [hparse]
  refine ⟨by decide, ?_⟩
  apply Parsed.not_endsEmpty
  decide

end Channel

end LarsSystem.Reactor
