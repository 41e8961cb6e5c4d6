import LarsSystem.MessageInput

/-!
# Messages over UDP

`udp_server` and `udp_client` send a message as one datagram, the header and the
body behind each other in `_write_buf`, and cut the datagrams they receive apart
in `_read_buf`. The two receivers are copies of each other. The two senders are
not: `udp_client` copies the body from `data`, `udp_server` from `&data`, where
the memory holds the pointer itself and what lies behind it on the stack.

A datagram arrives whole or not at all, and only one that the receiver could
store was built without a store past the end of `_write_buf`.
-/

namespace LarsSystem.Reactor

open LarsSystem.MachineWord

/-- `char _read_buf[MESSAGE_LENGTH_LIMIT]`, and `_write_buf`. -/
abbrev UdpBuf := { bytes : List Byte // bytes.length = messageLengthLimit }

/-- `memcpy` into a buffer. -/
def UdpBuf.memcpy (buf : UdpBuf) (offset : Nat) (bytes : List Byte) : Except Fault UdpBuf :=
  if hfits : offset + bytes.length ≤ messageLengthLimit then
    Except.ok ⟨buf.val.take offset ++ bytes ++ buf.val.drop (offset + bytes.length), by
      have hlen := buf.property
      simp only [List.length_append, List.length_take, List.length_drop]
      omega⟩
  else Except.error .outOfBounds

/-- A buffer of zeros. -/
def UdpBuf.zero : UdpBuf := ⟨List.replicate messageLengthLimit 0, List.length_replicate⟩

theorem UdpBuf.memcpy_ok {buf buf' : UdpBuf} {offset : Nat} {bytes : List Byte}
    (hcopy : buf.memcpy offset bytes = Except.ok buf') :
    offset + bytes.length ≤ messageLengthLimit ∧
      buf'.val = buf.val.take offset ++ bytes ++ buf.val.drop (offset + bytes.length) := by
  unfold memcpy at hcopy
  split at hcopy
  · rename_i hfits
    cases hcopy
    exact ⟨hfits, rfl⟩
  · cases hcopy

/-- Two copies one behind the other. -/
theorem UdpBuf.memcpy_memcpy {buf buf' buf'' : UdpBuf} {first second : List Byte}
    (hfirst : buf.memcpy 0 first = Except.ok buf')
    (hsecond : buf'.memcpy first.length second = Except.ok buf'') :
    first.length + second.length ≤ messageLengthLimit ∧
      buf''.val.take (first.length + second.length) = first ++ second := by
  obtain ⟨-, hbuf'⟩ := memcpy_ok hfirst
  obtain ⟨hfits, hbuf''⟩ := memcpy_ok hsecond
  have hkept : buf'.val.take first.length = first := by
    rw [hbuf', List.take_zero, List.nil_append, List.take_left]
  refine ⟨hfits, ?_⟩
  rw [hbuf'', hkept, ← List.length_append, List.take_left]

/-- A `udp_server` or a `udp_client`, with the calls of its router. -/
structure UdpSocket where
  readBuf : UdpBuf
  writeBuf : UdpBuf
  calls : List RouterCall

/-- What `recvfrom` answers; an error other than EINTR, EAGAIN among them, ends `do_read`. -/
inductive RecvResult where
  | datagram (bytes : List Byte)
  | interrupted
  | failed

namespace UdpSocket

/-- `send_message`, with the bytes that the second `memcpy` copies: the return value and the
    datagram that `sendto` took. -/
def sendPacket (u : UdpSocket) (m : Message) (copied : List Byte) (sendtoOk : Bool) :
    Except Fault (Int × Option (List Byte) × UdpSocket) :=
  if messageLengthLimit < m.body.length then Except.ok (-1, none, u)
  else
    match u.writeBuf.memcpy 0 m.head.bytes with
    | Except.error fault => Except.error fault
    | Except.ok headed =>
      match headed.memcpy messageHeadLen copied with
      | Except.error fault => Except.error fault
      | Except.ok written =>
        let u := { u with writeBuf := written }
        let packet := written.val.take (m.body.length + messageHeadLen)
        if sendtoOk then Except.ok (packet.length, some packet, u)
        else Except.ok (-1, none, u)

/-- `udp_client::send_message`. -/
def clientSend (u : UdpSocket) (m : Message) (sendtoOk : Bool) :
    Except Fault (Int × Option (List Byte) × UdpSocket) :=
  u.sendPacket m m.body sendtoOk

/-- `udp_server::send_message`; `atData` is the memory from the address of `data` on. -/
def serverSend (u : UdpSocket) (m : Message) (atData : Nat → Byte) (sendtoOk : Bool) :
    Except Fault (Int × Option (List Byte) × UdpSocket) :=
  u.sendPacket m ((List.range m.body.length).map atData) sendtoOk

/-- `recvfrom` of a datagram: it is cut to the buffer, and the buffer keeps its old bytes behind a
    short one. -/
def receive (u : UdpSocket) (bytes : List Byte) : Nat × UdpSocket :=
  let stored := bytes.take messageLengthLimit
  (stored.length, { u with readBuf := ⟨stored ++ u.readBuf.val.drop stored.length, by
    have hlen := u.readBuf.property
    have hstored : stored.length ≤ messageLengthLimit := List.length_take_le ..
    simp only [List.length_append, List.length_drop]
    omega⟩ })

/-- The check of a received packet, and the call of the router it leads to. -/
def packetCall (buf : List Byte) (pkgLen : Nat) : Option RouterCall :=
  let head := MsgHead.ofBytes (buf.take messageHeadLen)
  match head.bodyLen with
  | none => none
  | some msglen =>
    if msglen + messageHeadLen ≠ pkgLen then none
    else some ⟨head.msgid, msglen, some ((buf.drop messageHeadLen).take msglen)⟩

/-- `do_read` of `udp_server` and of `udp_client`, with the answers of its `recvfrom` calls;
    after the last of them nothing is there to read. -/
def doRead (u : UdpSocket) : List RecvResult → UdpSocket
  | [] => u
  | .failed :: _ => u
  | .interrupted :: results => u.doRead results
  | .datagram bytes :: results =>
    let (pkgLen, u) := u.receive bytes
    let calls := (packetCall u.readBuf.val pkgLen).toList
    { u with calls := u.calls ++ calls }.doRead results

/-! ## What a datagram leads to

The bytes that an earlier datagram left in the buffer play no part. -/

/-- The call that a datagram leads to. -/
def datagramCall (bytes : List Byte) : Option RouterCall :=
  let stored := bytes.take messageLengthLimit
  packetCall stored stored.length

/-- The calls of one `do_read`. -/
def arrivals : List RecvResult → List RouterCall
  | [] => []
  | .failed :: _ => []
  | .interrupted :: results => arrivals results
  | .datagram bytes :: results => (datagramCall bytes).toList ++ arrivals results

theorem packetCall_append (stored stale : List Byte) :
    packetCall (stored ++ stale) stored.length = packetCall stored stored.length := by
  by_cases hhead : messageHeadLen ≤ stored.length
  · unfold packetCall
    rw [List.take_append_of_le_length hhead, List.drop_append_of_le_length hhead]
    simp only
    split
    · rfl
    · rename_i msglen _
      split
      · rfl
      · rename_i hlen
        have hbody : msglen ≤ (stored.drop messageHeadLen).length := by
          rw [List.length_drop]
          omega
        rw [List.take_append_of_le_length hbody]
  · -- less than a header is never a message
    have hnone : ∀ buf, packetCall buf stored.length = none := by
      intro buf
      unfold packetCall
      simp only
      split
      · rfl
      · rw [if_pos (by omega)]
    rw [hnone, hnone]

theorem doRead_calls (u : UdpSocket) (results : List RecvResult) :
    (u.doRead results).calls = u.calls ++ arrivals results := by
  induction results generalizing u with
  | nil => exact (List.append_nil _).symm
  | cons result results ih =>
    cases result with
    | failed => exact (List.append_nil _).symm
    | interrupted => exact ih u
    | datagram bytes =>
      unfold doRead
      rw [ih]
      simp only [receive, packetCall_append, arrivals, datagramCall, List.append_assoc]

/-- `do_read` does not stop at an answer. -/
def GoesOn : RecvResult → Prop
  | .failed => False
  | _ => True

theorem arrivals_append {before : List RecvResult} (hbefore : ∀ result ∈ before, GoesOn result)
    (after : List RecvResult) : arrivals (before ++ after) = arrivals before ++ arrivals after := by
  induction before with
  | nil => rfl
  | cons result before ih =>
    have hrest := ih fun other hother => hbefore other (List.mem_cons_of_mem _ hother)
    cases result with
    | failed => exact (hbefore _ List.mem_cons_self).elim
    | interrupted => exact hrest
    | datagram bytes =>
      simp only [List.cons_append, arrivals, hrest, List.append_assoc]

/-! ## What a message becomes -/

/-- A packet that `sendto` took is the header and what was copied behind it. -/
theorem sendPacket_took {u u' : UdpSocket} {m : Message} {copied packet : List Byte} {ret : Int}
    (hcopied : copied.length = m.body.length)
    (hsend : u.sendPacket m copied true = Except.ok (ret, some packet, u')) :
    packet = m.head.bytes ++ copied ∧ packet.length ≤ messageLengthLimit := by
  unfold sendPacket at hsend
  split at hsend
  · cases hsend
  · split at hsend
    · cases hsend
    · rename_i headed hheaded
      split at hsend
      · cases hsend
      · rename_i written hwritten
        obtain ⟨hfits, hpacket⟩ := UdpBuf.memcpy_memcpy hheaded hwritten
        have hlen : m.head.bytes.length + copied.length = m.body.length + messageHeadLen := by
          rw [hcopied, Nat.add_comm]
          rfl
        rw [hlen] at hfits hpacket
        simp only [if_true, Except.ok.injEq, Prod.mk.injEq, Option.some.injEq] at hsend
        obtain ⟨-, hsent, -⟩ := hsend
        rw [← hsent, hpacket]
        refine ⟨rfl, ?_⟩
        rw [List.length_append, hlen]
        exact hfits

/-- The receiver takes the header for what it is, and hands out the bytes behind it. -/
theorem datagramCall_packet {m : Message} {copied : List Byte}
    (hcopied : copied.length = m.body.length)
    (hfits : (m.head.bytes ++ copied).length ≤ messageLengthLimit) :
    datagramCall (m.head.bytes ++ copied) = some ⟨m.msgid, m.body.length, some copied⟩ := by
  have hheadLen : m.head.bytes.length = messageHeadLen := rfl
  have hbody : m.head.bodyLen = some m.body.length := by
    rw [m.head_bodyLen, if_neg]
    rw [List.length_append, hcopied] at hfits
    omega
  have hhead : MsgHead.ofBytes ((m.head.bytes ++ copied).take messageHeadLen) = m.head := by
    rw [List.take_left' hheadLen, MsgHead.ofBytes_bytes]
  have hlen : m.body.length + messageHeadLen = (m.head.bytes ++ copied).length := by
    rw [List.length_append, hheadLen, hcopied, Nat.add_comm]
  unfold datagramCall
  rw [List.take_of_length_le hfits]
  unfold packetCall
  simp only [hhead, hbody, hlen, ne_eq, not_true_eq_false, if_false, List.drop_left' hheadLen]
  rw [← hcopied, List.take_length]
  rfl

/-! ## Both directions -/

/-- The two senders, with what the second one finds at `&data`. -/
inductive Sender where
  | client
  | server (atData : Nat → Byte)

def Sender.send : Sender → UdpSocket → Message → Bool →
    Except Fault (Int × Option (List Byte) × UdpSocket)
  | .client, u, m, sendtoOk => u.clientSend m sendtoOk
  | .server atData, u, m, sendtoOk => u.serverSend m atData sendtoOk

/-- The server's pointer and what lies behind it happen to be the bytes of the body. -/
def Sender.HoldsBody : Sender → List Byte → Prop
  | .client, _ => True
  | .server atData, body => ∀ i < body.length, body[i]? = some (atData i)

/-- **What a datagram promises**: among whatever else arrives, the peer's `do_read` calls its router
    with the id, the length and the body of the message. -/
def RoundTrips (m : Message) (packet : List Byte) : Prop :=
  ∀ (peer : UdpSocket) (before after : List RecvResult), (∀ result ∈ before, GoesOn result) →
    (peer.doRead (before ++ .datagram packet :: after)).calls =
      peer.calls ++ arrivals before ++ [⟨m.msgid, m.body.length, some m.body⟩] ++ arrivals after

theorem roundTrips_iff {m : Message} {packet : List Byte} :
    RoundTrips m packet ↔
      datagramCall packet = some ⟨m.msgid, m.body.length, some m.body⟩ := by
  constructor
  · intro htrips
    have hcalls := htrips ⟨.zero, .zero, []⟩ [] [] fun result hresult =>
      absurd hresult List.not_mem_nil
    rw [doRead_calls] at hcalls
    simpa [arrivals] using hcalls
  · intro hcall peer before after hbefore
    rw [doRead_calls, arrivals_append hbefore, arrivals, hcall]
    simp

/-- A packet made of the header and some other bytes goes round exactly if these are the body. -/
theorem roundTrips_packet {u u' : UdpSocket} {m : Message} {copied packet : List Byte} {ret : Int}
    (hcopied : copied.length = m.body.length)
    (hsend : u.sendPacket m copied true = Except.ok (ret, some packet, u')) :
    RoundTrips m packet ↔ copied = m.body := by
  obtain ⟨rfl, hfits⟩ := sendPacket_took hcopied hsend
  rw [roundTrips_iff, datagramCall_packet hcopied hfits]
  simp

theorem copied_eq_iff {atData : Nat → Byte} {body : List Byte} :
    (List.range body.length).map atData = body ↔ (Sender.server atData).HoldsBody body := by
  constructor
  · intro heq i hi
    have hget := congrArg (fun bytes => bytes[i]?) heq
    simp only [List.getElem?_map, List.getElem?_range hi, Option.map_some] at hget
    exact hget.symm
  · intro hholds
    apply List.ext_getElem?
    intro i
    by_cases hi : i < body.length
    · rw [List.getElem?_map, List.getElem?_range hi, Option.map_some]
      exact (hholds i hi).symm
    · rw [List.getElem?_eq_none (by simpa using hi), List.getElem?_eq_none (by simpa using hi)]

/-- **A message goes round exactly if it comes from a client, or the memory at `&data` holds the
    body too.** -/
theorem datagram_roundTrips_iff {u u' : UdpSocket} {sender : Sender} {m : Message}
    {packet : List Byte} {ret : Int}
    (hsend : sender.send u m true = Except.ok (ret, some packet, u')) :
    RoundTrips m packet ↔ sender.HoldsBody m.body := by
  cases sender with
  | client =>
    rw [roundTrips_packet rfl hsend]
    exact iff_of_true rfl trivial
  | server atData =>
    rw [roundTrips_packet (by rw [List.length_map, List.length_range]) hsend]
    exact copied_eq_iff

/-- A client's message of two bytes. -/
theorem datagram_roundTrips_client :
    ∃ ret packet u', Sender.client.send ⟨.zero, .zero, []⟩ ⟨4, [7, 8], by decide⟩ true =
        Except.ok (ret, some packet, u') ∧ RoundTrips ⟨4, [7, 8], by decide⟩ packet := by
  have hsend : ∃ ret packet u', Sender.client.send ⟨.zero, .zero, []⟩ ⟨4, [7, 8], by decide⟩
      true = Except.ok (ret, some packet, u') := ⟨_, _, _, rfl⟩
  obtain ⟨ret, packet, u', htook⟩ := hsend
  exact ⟨ret, packet, u', htook, (datagram_roundTrips_iff htook).mpr trivial⟩

/-- A server's answer of one byte, with the pointer 0x4000 in the memory at `&data`. -/
theorem server_sends_pointer :
    ∃ ret packet u',
      (Sender.server fun i => [0, 64, 0, 0, 0, 0, 0, 0].getD i 0).send ⟨.zero, .zero, []⟩
          ⟨5, [7], by decide⟩ true = Except.ok (ret, some packet, u') ∧
        ¬ RoundTrips ⟨5, [7], by decide⟩ packet := by
  have hsend : ∃ ret packet u', UdpSocket.sendPacket ⟨.zero, .zero, []⟩ ⟨5, [7], by decide⟩ [0]
      true = Except.ok (ret, some packet, u') := ⟨_, _, _, rfl⟩
  obtain ⟨ret, packet, u', htook⟩ := hsend
  refine ⟨ret, packet, u', htook, ?_⟩
  rw [roundTrips_packet (by rfl) htook]
  decide

end UdpSocket

end LarsSystem.Reactor
