import LarsSystem.FramingSafety
import LarsSystem.LarsMessage
import LarsSystem.MessageRoundTrip

/-!
# Messages of `lars.proto` over a TCP connection

What `send_message` and the read loop carry between agent, DNS service and
reporter is serialized messages. The receiver's handlers parse the bodies that
the router hands them, and find the messages that were sent, in order and once
each (`traffic_safe_iff`). This is about messages within the limit of the reader
(`Letter.short`); `send_message` takes longer ones too, and the reader closes the
connection over them. Within the limit the one thing that can go wrong comes from
the serialization: a message that is all zero has no body, and a read that ends
with such a message aborts the receiver. A route request for module 0 and command 0
is such a message.
-/

namespace LarsSystem.Reactor

open LarsSystem.MachineWord
open LarsSystem.LengthFraming
open LarsSystem.Transition
open LarsSystem.WireFormat (Runtime)

/-! ## Typed messages -/

/-- A message whose serialization is within the reader's limit. -/
structure Letter (R : Runtime) where
  content : LarsMessage
  short : (content.serialize R).length ≤ messageLengthLimit

namespace Letter

variable {R : Runtime}

/-- What `send_message` gets: the body and the id. -/
def message (letter : Letter R) : Message where
  msgid := letter.content.msgid
  body := letter.content.serialize R
  fits := Nat.lt_of_le_of_lt letter.short (by decide)

/-- It has no body. -/
def Blank (letter : Letter R) : Prop := letter.content = letter.content.cleared

theorem blank_iff (letter : Letter R) : letter.message.body = [] ↔ letter.Blank :=
  LarsMessage.serialize_eq_nil_iff letter.content

theorem announced (letter : Letter R) : Announced msgCodec letter.message.frame :=
  (Message.announced_iff letter.message).mpr letter.short

/-- The stream of the letters, encoded one behind the other. -/
def stream (letters : List (Letter R)) : List Byte := Message.stream (letters.map message)

theorem stream_eq (letters : List (Letter R)) :
    stream letters = encodeFrames msgCodec (letters.map fun letter => letter.message.frame) := by
  rw [stream, Message.stream_eq, List.map_map]
  rfl

theorem parse_stream (letters : List (Letter R)) :
    parse msgCodec (stream letters) =
      ⟨letters.map fun letter => letter.message.frame, [], false⟩ := by
  have hannounced : ∀ frame ∈ letters.map fun letter => letter.message.frame,
      Announced msgCodec frame := by
    intro frame hframe
    obtain ⟨letter, -, rfl⟩ := List.mem_map.mp hframe
    exact letter.announced
  have hparse := parse_encodeFrames_append msgCodec _ hannounced []
  rw [List.append_nil, ← stream_eq, parse_nil] at hparse
  simpa [Parsed.prepend] using hparse

end Letter

/-- What a handler makes of a router call. -/
def RouterCall.parsed (R : Runtime) (call : RouterCall) : Option (LarsMessage × Bool) :=
  call.data.bind (LarsMessage.parseFromArray R call.msgid)

theorem parsed_letter {R : Runtime} (letter : Letter R) :
    (RouterCall.ofFrame letter.message.frame).parsed R = some (letter.content, true) :=
  LarsMessage.parse_of_serialize letter.content

/-! ## The connection -/

/-- A channel, and the messages for which `send_message` returned 0. -/
structure Traffic (R : Runtime) where
  channel : Channel
  taken : List (Letter R)

inductive TrafficEvent (R : Runtime) where
  | send (letter : Letter R) (env : SendEnv)
  | write (amounts : List Nat) (clean : CleanEnv)
  | deliver (count : Nat) (stale : List Byte) (clean : CleanEnv)

namespace Traffic

variable {R : Runtime}

def step (t : Traffic R) : TrafficEvent R → Except Fault (Traffic R)
  | .send letter env =>
    match t.channel.sender.sendMessage letter.message env with
    | Except.error fault => Except.error fault
    | Except.ok (ret, sender) =>
      Except.ok ⟨{ t.channel with sender := sender },
        if ret = 0 then t.taken ++ [letter] else t.taken⟩
  | .write amounts clean =>
    (t.channel.step (.write amounts clean)).map fun channel => { t with channel := channel }
  | .deliver count stale clean =>
    (t.channel.step (.deliver count stale clean)).map fun channel => { t with channel := channel }

/-- What the receiver's handlers have parsed. -/
def received (t : Traffic R) : List (Option (LarsMessage × Bool)) :=
  t.channel.receiver.calls.map (RouterCall.parsed R)

/-- What they should parse. -/
def sent (t : Traffic R) : List (Option (LarsMessage × Bool)) :=
  t.taken.map fun letter => some (letter.content, true)

/-- **What the connection promises**: the handlers have parsed the first of the messages sent, in
    order and once each, all of them when nothing is left on the way, and the connection is not
    closed. -/
structure Received (closed : List Int) (t : Traffic R) : Prop where
  inOrder : t.received <+: t.sent
  complete : t.channel.wire = [] → t.channel.sender.obuf.length = 0 → t.received = t.sent
  notRefused : t.channel.receiver.closed = closed

/-- A message is taken whole, or refused before its header is queued; a read leaves room for a
    frame that is not complete. -/
def Roomy (t : Traffic R) : TrafficEvent R → Prop
  | .send letter _ =>
    t.channel.sender.obuf.length + letter.message.bytes.length ≤ maxBytes ∨
      maxBytes < t.channel.sender.obuf.length + messageHeadLen
  | .write _ _ => True
  | .deliver count _ _ =>
    (t.channel.wire.take count).length + (messageHeadLen + messageLengthLimit) ≤ maxBytes

/-- The event is no read behind which the input buffer holds whole messages, the last of which is
    all zero. -/
def NoBlankEnd (t : Traffic R) : TrafficEvent R → Prop
  | .deliver count _ _ =>
    t.channel.wire.take count ≠ [] → ∀ (letters : List (Letter R)) (last : Letter R),
      t.channel.receiver.ibuf.content ++ t.channel.wire.take count =
        Letter.stream (letters ++ [last]) → ¬ last.Blank
  | _ => True

/-! ## The invariant -/

structure Carried (closed : List Int) (t : Traffic R) : Prop where
  accepted : t.channel.sender.accepted = t.taken.map Letter.message
  conserved : ∃ arrived, Channel.Conserved closed t.channel arrived

theorem received_eq {t : Traffic R} {letters : List (Letter R)}
    (hcalls : t.channel.receiver.calls =
      (letters.map fun letter => letter.message.frame).map RouterCall.ofFrame) :
    t.received = letters.map fun letter => some (letter.content, true) := by
  rw [received, hcalls, List.map_map, List.map_map]
  apply List.map_congr_left
  intro letter _
  exact parsed_letter letter

section Invariant

variable {closed : List Int} {t : Traffic R}

theorem Carried.frames (carried : Carried closed t) :
    t.channel.sender.accepted.map Message.frame =
      t.taken.map fun letter => letter.message.frame := by
  rw [carried.accepted, List.map_map]
  rfl

theorem Carried.expected (carried : Carried closed t) :
    t.channel.expected =
      (t.taken.map fun letter => letter.message.frame).map RouterCall.ofFrame := by
  rw [Channel.expected_eq, carried.frames]

theorem Carried.received (carried : Carried closed t) : Received closed t := by
  obtain ⟨arrived, conserved⟩ := carried.conserved
  have hdelivered := conserved.delivered
  constructor
  · have hprefix := hdelivered.inOrder
    rw [carried.expected, List.map_map] at hprefix
    obtain ⟨letters, hletters, hcalls⟩ := List.prefix_map_iff.mp hprefix
    rw [received_eq (by rw [hcalls, List.map_map])]
    exact hletters.map _
  · intro hwire hpending
    exact received_eq ((hdelivered.complete hwire hpending).trans carried.expected)
  · exact hdelivered.notRefused

/-- What is unread and what arrives next are whole messages, and a beginning of one. -/
theorem Carried.chunk (carried : Carried closed t) (count : Nat) :
    ∃ letters : List (Letter R),
      (parse msgCodec (t.channel.receiver.ibuf.content ++ t.channel.wire.take count)).frames =
        letters.map fun letter => letter.message.frame := by
  obtain ⟨arrived, conserved⟩ := carried.conserved
  have hok := conserved.arrived_parse.1
  have hparse := parse_append msgCodec arrived (t.channel.wire.take count) hok
  have hsplit : (arrived ++ t.channel.wire.take count) ++
      (t.channel.wire.drop count ++ t.channel.sender.obuf.content) =
      encodeFrames msgCodec (t.channel.sender.accepted.map Message.frame) := by
    rw [← Message.stream_eq, conserved.stream]
    simp only [List.append_assoc]
    rw [← List.append_assoc (t.channel.wire.take count), List.take_append_drop]
  have hframes := (parse_initialSegment msgCodec _ conserved.announced hsplit).2
  rw [hparse, ← conserved.unread, carried.frames] at hframes
  have hinfix := (List.suffix_append _ _).isInfix.trans hframes.isInfix
  obtain ⟨letters, -, hletters⟩ := List.infix_map_iff.mp hinfix
  exact ⟨letters, hletters⟩

/-- **A read ends in an empty frame exactly if it completes a message that is all zero, and
    nothing is behind it.** -/
theorem Carried.endsEmpty_iff (carried : Carried closed t) (count : Nat) :
    (parse msgCodec
        (t.channel.receiver.ibuf.content ++ t.channel.wire.take count)).EndsEmpty ↔
      ∃ (letters : List (Letter R)) (last : Letter R),
        t.channel.receiver.ibuf.content ++ t.channel.wire.take count =
          Letter.stream (letters ++ [last]) ∧ last.Blank := by
  constructor
  · rintro ⟨-, hrest, header, hlast⟩
    obtain ⟨letters, hletters⟩ := carried.chunk count
    have hbytes := encodeFrames_parse msgCodec
      (t.channel.receiver.ibuf.content ++ t.channel.wire.take count)
    rw [hrest, hletters, List.append_nil, ← Letter.stream_eq] at hbytes
    rw [hletters, List.getLast?_map] at hlast
    obtain ⟨last, hget, hframe⟩ := Option.map_eq_some_iff.mp hlast
    obtain ⟨before, rfl⟩ := List.getLast?_eq_some_iff.mp hget
    exact ⟨before, last, hbytes.symm, last.blank_iff.mp (congrArg Prod.snd hframe)⟩
  · rintro ⟨letters, last, hbytes, hblank⟩
    have hbody : last.message.body = [] := last.blank_iff.mpr hblank
    rw [hbytes, Letter.parse_stream]
    refine ⟨rfl, rfl, last.message.head, ?_⟩
    rw [List.map_append, List.map_singleton, List.getLast?_concat, Message.frame, hbody]

/-- Less than one frame is unread. -/
theorem Carried.unread_lt (carried : Carried closed t) :
    t.channel.receiver.ibuf.length < messageHeadLen + messageLengthLimit := by
  obtain ⟨arrived, conserved⟩ := carried.conserved
  have hbound : ∀ (header : MsgHead) n, msgCodec.bodyLen header = some n →
      n ≤ messageLengthLimit := by
    intro header n hbody
    change header.bodyLen = some n at hbody
    unfold MsgHead.bodyLen at hbody
    split at hbody
    · cases hbody
    · cases hbody
      omega
  have hlt := parse_rest_length_lt msgCodec hbound conserved.arrived_parse.1
  rwa [← conserved.unread, ReactorBuf.content_length] at hlt

/-! ### One event -/

theorem step_send {letter : Letter R} (env : SendEnv) (hready : t.channel.sender.obuf.Ready)
    (hfits : t.channel.sender.obuf.length + letter.message.bytes.length ≤ maxBytes)
    {channel : Channel}
    (hstep : t.channel.step (.send letter.message env) = Except.ok channel) :
    t.step (.send letter env) = Except.ok ⟨channel, t.taken ++ [letter]⟩ ∧
      channel.sender.accepted = t.channel.sender.accepted ++ [letter.message] := by
  obtain ⟨sender, hsend, -, -, haccepted, -⟩ :=
    NetConnection.sendMessage_accepted env hready hfits
  simp only [Channel.step, hsend, Except.ok.injEq] at hstep
  refine ⟨?_, by rw [← hstep]; exact haccepted⟩
  simp only [step, hsend, hstep, if_true]

theorem Carried.send (carried : Carried closed t) (letter : Letter R) (env : SendEnv)
    (hroomy : t.Roomy (.send letter env)) :
    ∃ t', t.step (.send letter env) = Except.ok t' ∧ Carried closed t' := by
  obtain ⟨arrived, conserved⟩ := carried.conserved
  have hshort : letter.message.bytes.length ≤ messageHeadLen + messageLengthLimit := by
    rw [Message.bytes_length]
    exact Nat.add_le_add_left letter.short _
  have hlimits : t.channel.WithinLimits (.send letter.message env) := by
    have hhead : messageHeadLen = 8 := rfl
    have hlimit : messageLengthLimit = 65527 := rfl
    have hmax : maxBytes = 8388608 := rfl
    refine ⟨fun _ => letter.short, ?_, ?_⟩ <;> rcases hroomy with hfits | hfull <;> omega
  obtain ⟨channel, hstep, hnext⟩ := conserved.send env hlimits
  rcases hroomy with hfits | hfull
  · obtain ⟨htaken, haccepted⟩ := step_send env conserved.sendReady hfits hstep
    refine ⟨_, htaken, ?_, arrived, hnext⟩
    simp only [haccepted, carried.accepted, List.map_append, List.map_singleton]
  · have hqueue := queueMessage_headRefused (m := letter.message) env conserved.sendReady hfull
    have hsend := NetConnection.sendMessage_failed hqueue
    simp only [Channel.step, hsend, Except.ok.injEq] at hstep
    refine ⟨⟨channel, t.taken⟩, ?_, ?_, arrived, hnext⟩
    · simp only [step, hsend, hstep]
      rfl
    · rw [← hstep]
      refine Eq.trans ?_ carried.accepted
      cases t.channel.sender <;> rfl

theorem Carried.write (carried : Carried closed t) (amounts : List Nat) (clean : CleanEnv) :
    ∃ t', t.step (.write amounts clean) = Except.ok t' ∧ Carried closed t' := by
  obtain ⟨arrived, conserved⟩ := carried.conserved
  obtain ⟨obuf, taken, hloop, -, -⟩ := Channel.writeLoop_took_ok amounts conserved.sendReady
  obtain ⟨sender, hwrite, -, haccepted, -⟩ := NetConnection.doWrite_of_writeLoop clean hloop
  obtain ⟨channel, hstep, hnext⟩ := conserved.write amounts clean
  refine ⟨⟨channel, t.taken⟩, by simp only [step, hstep, Except.map], ?_, arrived, hnext⟩
  simp only [Channel.step, hwrite, Except.ok.injEq] at hstep
  simp only [← hstep, haccepted, carried.accepted]

theorem deliver_sender {ch ch' : Channel} {count : Nat} {stale : List Byte} {clean : CleanEnv}
    (hstep : ch.step (.deliver count stale clean) = Except.ok ch') : ch'.sender = ch.sender := by
  simp only [Channel.step] at hstep
  split at hstep
  · cases hstep
    rfl
  · split at hstep <;> cases hstep
    rfl

theorem Carried.deliver (carried : Carried closed t) (count : Nat) (stale : List Byte)
    (clean : CleanEnv) (hroomy : t.Roomy (.deliver count stale clean))
    (hguard : t.NoBlankEnd (.deliver count stale clean)) :
    ∃ t', t.step (.deliver count stale clean) = Except.ok t' ∧ Carried closed t' := by
  obtain ⟨arrived, conserved⟩ := carried.conserved
  by_cases hempty : t.channel.wire.take count = []
  · have hstep : t.channel.step (.deliver count stale clean) = Except.ok t.channel := by
      simp only [Channel.step, hempty, true_or, if_true]
    exact ⟨t, by simp only [step, hstep, Except.map], carried⟩
  · have hunread := carried.unread_lt
    have htail : ¬ (parse msgCodec
        (t.channel.receiver.ibuf.content ++ t.channel.wire.take count)).EndsEmpty := by
      rw [carried.endsEmpty_iff]
      rintro ⟨letters, last, hbytes, hblank⟩
      exact hguard hempty letters last hbytes hblank
    have hfits : t.channel.receiver.ibuf.length + (t.channel.wire.take count).length ≤
        maxBytes := by
      change (t.channel.wire.take count).length + (messageHeadLen + messageLengthLimit) ≤
        maxBytes at hroomy
      omega
    obtain ⟨channel, hstep, hnext⟩ := conserved.deliver count stale clean ⟨hfits, htail⟩
    refine ⟨⟨channel, t.taken⟩, by simp only [step, hstep, Except.map], ?_, hnext⟩
    simp only [deliver_sender hstep, carried.accepted]

theorem Carried.deliver_aborts (carried : Carried closed t) (count : Nat) (stale : List Byte)
    (clean : CleanEnv) (hroomy : t.Roomy (.deliver count stale clean))
    (hblank : ¬ t.NoBlankEnd (.deliver count stale clean)) :
    t.step (.deliver count stale clean) = Except.error Fault.popAssert := by
  obtain ⟨arrived, conserved⟩ := carried.conserved
  have hunread := carried.unread_lt
  simp only [NoBlankEnd, not_forall, not_not] at hblank
  obtain ⟨hne, letters, last, hbytes, hlast⟩ := hblank
  have hends := (carried.endsEmpty_iff count).mpr ⟨letters, last, hbytes, hlast⟩
  have hstored : (Arrival.chunk (t.channel.wire.take count) hne).Stored
      t.channel.receiver.ibuf := by
    change (t.channel.wire.take count).length + (messageHeadLen + messageLengthLimit) ≤
      maxBytes at hroomy
    simp only [Arrival.Stored]
    omega
  obtain ⟨crash, hread, hfault, -⟩ := NetConnection.doRead_aborts
    ⟨.chunk (t.channel.wire.take count) hne, stale, clean⟩ conserved.readReady ⟨hstored, hends⟩
  simp only [Arrival.env] at hread
  simp only [step, Channel.step, hne, conserved.established, or_self, if_false, hread, hfault]
  rfl

end Invariant

/-! ## Every run -/

/-- An established connection on which nothing has been sent. -/
structure Fresh (t : Traffic R) : Prop where
  channel : t.channel.Fresh
  taken : t.taken = []

theorem Fresh.carried {t : Traffic R} (hfresh : t.Fresh) :
    Carried t.channel.receiver.closed t := by
  have hchannel := hfresh.channel
  refine ⟨by rw [hchannel.accepted, hfresh.taken]; rfl, [], ?_⟩
  constructor
  · rw [hchannel.accepted, hchannel.wire, hchannel.sender]
    rfl
  · rw [hchannel.accepted]
    exact List.forall_mem_nil _
  · rw [hchannel.sender]
    exact ReactorBuf.ready_empty
  · rw [hchannel.receiver]
    exact ReactorBuf.ready_empty
  · rw [hchannel.receiver, parse_nil]
    rfl
  · rw [hchannel.calls, parse_nil]
    rfl
  · exact hchannel.established
  · rfl

/-- **Typed messages arrive as they were sent, as long as no read ends with one that is all
    zero.** On a fresh connection, over every run of sends, partial writes and reads in any chunks
    for which the buffers have room: no operation aborts, and in every state the handlers have
    parsed the first of the messages taken, in order and once each, if and only if no read
    ends in whole messages of which the last is all zero. -/
theorem traffic_safe_iff (t : Traffic R) (hfresh : t.Fresh) (events : List (TrafficEvent R))
    (hroomy : Meets step Roomy t events) :
    Safe step (Received t.channel.receiver.closed) (fun _ => False) t events ↔
      Meets step NoBlankEnd t events := by
  refine safe_iff_meets_within (Carried t.channel.receiver.closed) ?_ ?_ ?_ hfresh.carried hroomy
  · exact fun _ carried => carried.received
  · intro u event carried hroom hguard
    cases event with
    | send letter env =>
      obtain ⟨next, hstep, hnext⟩ := carried.send letter env hroom
      rw [hstep]
      exact hnext
    | write amounts clean =>
      obtain ⟨next, hstep, hnext⟩ := carried.write amounts clean
      rw [hstep]
      exact hnext
    | deliver count stale clean =>
      obtain ⟨next, hstep, hnext⟩ := carried.deliver count stale clean hroom hguard
      rw [hstep]
      exact hnext
  · intro u event carried hroom hlands
    cases event with
    | send letter env => trivial
    | write amounts clean => trivial
    | deliver count stale clean =>
      by_contra hblank
      rw [carried.deliver_aborts count stale clean hroom hblank] at hlands
      exact hlands

/-- The route request for module 0 and command 0. -/
def blankLetter : Letter Runtime.base128 := ⟨.getRouteRequest ⟨0, 0⟩, by decide⟩

def newTraffic : Traffic Runtime.base128 := ⟨Channel.newChannel, []⟩

/-- Sent over two new connections and read at once, it aborts the receiver. -/
theorem traffic_unsafe_blank :
    ¬ Safe step (Received []) (fun _ => False) newTraffic
      [.send blankLetter ⟨[], [], true⟩, .write [8] NetConnection.noReconnect,
        .deliver 8 [] NetConnection.noReconnect] := by
  have hroomy : Meets step Roomy newTraffic
      [.send blankLetter ⟨[], [], true⟩, .write [8] NetConnection.noReconnect,
        .deliver 8 [] NetConnection.noReconnect] := by
    refine ⟨Or.inl (by decide), fun _ _ => ⟨trivial, fun t _ => ⟨?_, fun _ _ => trivial⟩⟩⟩
    have hlen : (t.channel.wire.take 8).length ≤ 8 := List.length_take_le 8 _
    change _ + (8 + 65527) ≤ 8388608
    omega
  intro hsafe
  have hmeets := (traffic_safe_iff newTraffic ⟨Channel.newChannel_fresh, rfl⟩ _ hroomy).mp hsafe
  obtain ⟨ch₁, ch₂, hsend, hwrite, -, hreceiver, hwire⟩ :=
    Channel.sent_whole Channel.newChannel_fresh blankLetter.message ⟨[], [], true⟩
      NetConnection.noReconnect (by decide) (Nat.le_refl 8)
  -- the same three states with the ghost beside them
  obtain ⟨-, hmeets⟩ := hmeets
  obtain ⟨-, hmeets⟩ := hmeets ⟨ch₁, [blankLetter]⟩
    (step_send (t := newTraffic) _ ReactorBuf.ready_empty (by decide) hsend).1
  obtain ⟨hguard, -⟩ := hmeets ⟨ch₂, [blankLetter]⟩ (by simp only [step, hwrite, Except.map])
  refine hguard (by rw [hwire]; decide) [] blankLetter ?_ rfl
  rw [hreceiver, hwire]
  decide

end Traffic

end LarsSystem.Reactor
