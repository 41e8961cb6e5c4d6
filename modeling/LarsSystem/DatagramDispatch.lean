import LarsSystem.UdpMessage

/-!
# Which datagrams reach the router

`do_read` copies a header out of `_read_buf` without a look at how much arrived,
so a runt is read together with what an earlier datagram left behind it. Nothing
comes of it: the length that such a header announces would have to be negative
for the sum to be that of the runt. The router is called for the well-formed
datagrams, each of them once and in their order, with bytes of its own.

`udp_server` notes the sender of a datagram in `_cli_addr`, where `send_message`
finds the address an answer goes to; `udp_client` is connected and notes nothing.
-/

namespace LarsSystem.Reactor

open LarsSystem.MachineWord

/-! ## Well-formed datagrams -/

def datagramHead (packet : List Byte) : MsgHead := MsgHead.ofBytes (packet.take messageHeadLen)

/-- The packet has a header of its own, with a length in range that is the length of the rest. -/
structure WellFormed (packet : List Byte) : Prop where
  head : messageHeadLen ≤ packet.length
  nonneg : 0 ≤ (datagramHead packet).msglen.toInt
  limit : (datagramHead packet).msglen.toInt ≤ messageLengthLimit
  total : messageHeadLen + (datagramHead packet).msglen.toInt = packet.length

theorem wellFormed_iff {packet : List Byte} :
    WellFormed packet ↔
      messageHeadLen ≤ packet.length ∧ 0 ≤ (datagramHead packet).msglen.toInt ∧
        (datagramHead packet).msglen.toInt ≤ messageLengthLimit ∧
        messageHeadLen + (datagramHead packet).msglen.toInt = packet.length :=
  ⟨fun h => ⟨h.head, h.nonneg, h.limit, h.total⟩, fun ⟨h, h', h'', h'''⟩ => ⟨h, h', h'', h'''⟩⟩

instance : DecidablePred WellFormed := fun _ => decidable_of_iff' _ wellFormed_iff

/-- The call with the id, the length and the body of a packet. -/
def callOf (packet : List Byte) : RouterCall :=
  ⟨(datagramHead packet).msgid, (datagramHead packet).msglen.toInt.toNat,
    some (packet.drop messageHeadLen)⟩

/-- What `recvfrom` stores of a datagram. -/
def delivered (bytes : List Byte) : List Byte := bytes.take messageLengthLimit

/-- One packet more is one call more, if it is well formed. -/
theorem map_filter_cons {α β : Type} (packet : α → List Byte) (f : α → β) (a : α) (l : List α) :
    ((a :: l).filter fun a => WellFormed (packet a)).map f =
      (if WellFormed (packet a) then some (f a) else none).toList ++
        (l.filter fun a => WellFormed (packet a)).map f := by
  by_cases hwell : WellFormed (packet a)
  · rw [if_pos hwell, List.filter_cons_of_pos (by simpa using hwell)]
    rfl
  · rw [if_neg hwell, List.filter_cons_of_neg (by simpa using hwell)]
    rfl

namespace UdpSocket

theorem bodyLen_eq_some {head : MsgHead} {msglen : Nat} :
    head.bodyLen = some msglen ↔
      head.msglen.toInt = msglen ∧ head.msglen.toInt ≤ messageLengthLimit := by
  unfold MsgHead.bodyLen
  split_ifs with hrange
  · exact iff_of_false (by simp) (by omega)
  · rw [Option.some.injEq]
    omega

/-- The check of `do_read` is about the packet alone. -/
theorem packetCall_packet (packet : List Byte) :
    packetCall packet packet.length = if WellFormed packet then some (callOf packet) else none := by
  have hhead : MsgHead.ofBytes (packet.take messageHeadLen) = datagramHead packet := rfl
  unfold packetCall
  simp only [hhead]
  cases hbody : (datagramHead packet).bodyLen with
  | none =>
    simp only
    rw [if_neg]
    intro hwell
    have hsome : (datagramHead packet).bodyLen = some (datagramHead packet).msglen.toInt.toNat :=
      bodyLen_eq_some.mpr ⟨(Int.toNat_of_nonneg hwell.nonneg).symm, hwell.limit⟩
    rw [hbody] at hsome
    cases hsome
  | some msglen =>
    obtain ⟨hmsglen, hlimit⟩ := bodyLen_eq_some.mp hbody
    simp only
    by_cases hlen : msglen + messageHeadLen = packet.length
    · have hwell : WellFormed packet := ⟨by omega, by omega, hlimit, by omega⟩
      have hrest : (packet.drop messageHeadLen).length = msglen := by
        rw [List.length_drop]
        omega
      rw [if_neg (not_not.mpr hlen), if_pos hwell, callOf, hmsglen, Int.toNat_natCast, ← hrest,
        List.take_length]
    · rw [if_pos hlen, if_neg]
      intro hwell
      have htotal := hwell.total
      omega

/-- **Stale bytes take no part**, whatever the buffer held before. -/
theorem packetCall_receive (u : UdpSocket) (bytes : List Byte) :
    packetCall (u.receive bytes).2.readBuf.val (u.receive bytes).1 =
      if WellFormed (delivered bytes) then some (callOf (delivered bytes)) else none := by
  change packetCall (delivered bytes ++ u.readBuf.val.drop (delivered bytes).length)
    (delivered bytes).length = _
  rw [packetCall_append, packetCall_packet]

/-- The packets that `do_read` of `udp_client` receives. -/
def packets : List RecvResult → List (List Byte)
  | [] => []
  | .failed :: _ => []
  | .interrupted :: results => packets results
  | .datagram bytes :: results => delivered bytes :: packets results

theorem arrivals_eq (results : List RecvResult) :
    arrivals results = ((packets results).filter (WellFormed ·)).map callOf := by
  induction results with
  | nil => rfl
  | cons result results ih =>
    cases result with
    | failed => rfl
    | interrupted => exact ih
    | datagram bytes =>
      have hcall : datagramCall bytes = if WellFormed (delivered bytes) then
          some (callOf (delivered bytes)) else none := packetCall_packet (delivered bytes)
      rw [arrivals, packets, hcall, ih]
      exact (map_filter_cons id callOf (delivered bytes) (packets results)).symm

/-- One `do_read` after another, whatever the first of them finds in the buffer. -/
theorem reads_calls (u : UdpSocket) (reads : List (List RecvResult)) :
    (reads.foldl doRead u).calls =
      u.calls ++ ((reads.flatMap packets).filter (WellFormed ·)).map callOf := by
  induction reads generalizing u with
  | nil => exact (List.append_nil _).symm
  | cons results reads ih =>
    rw [List.foldl_cons, ih, doRead_calls, arrivals_eq, List.flatMap_cons, List.filter_append,
      List.map_append, List.append_assoc]

end UdpSocket

/-! ## `udp_server` -/

/-- A `udp_server`; each call of its router stands beside the address an answer goes to. -/
structure UdpServer (Addr : Type) where
  readBuf : UdpBuf
  writeBuf : UdpBuf
  cliAddr : Addr
  calls : List (Addr × RouterCall)

/-- What `recvfrom` answers a server; the sender of a datagram is noted. -/
inductive RecvFrom (Addr : Type) where
  | datagram (source : Addr) (bytes : List Byte)
  | interrupted
  | failed

namespace UdpServer

variable {Addr : Type}

/-- The server without the addresses. -/
def socket (s : UdpServer Addr) : UdpSocket := ⟨s.readBuf, s.writeBuf, s.calls.map Prod.snd⟩

/-- `udp_server::do_read`, with the answers of its `recvfrom` calls. -/
def doRead (s : UdpServer Addr) : List (RecvFrom Addr) → UdpServer Addr
  | [] => s
  | .failed :: _ => s
  | .interrupted :: results => s.doRead results
  | .datagram source bytes :: results =>
    let (pkgLen, u) := s.socket.receive bytes
    let calls := (UdpSocket.packetCall u.readBuf.val pkgLen).toList
    doRead ⟨u.readBuf, u.writeBuf, source, s.calls ++ calls.map fun call => (source, call)⟩ results

/-- The packets that `do_read` of `udp_server` receives, with their senders. -/
def packets : List (RecvFrom Addr) → List (Addr × List Byte)
  | [] => []
  | .failed :: _ => []
  | .interrupted :: results => packets results
  | .datagram source bytes :: results => (source, delivered bytes) :: packets results

theorem doRead_calls (s : UdpServer Addr) (results : List (RecvFrom Addr)) :
    (s.doRead results).calls = s.calls ++
      ((packets results).filter fun packet => WellFormed packet.2).map fun packet =>
        (packet.1, callOf packet.2) := by
  induction results generalizing s with
  | nil => exact (List.append_nil _).symm
  | cons result results ih =>
    cases result with
    | failed => exact (List.append_nil _).symm
    | interrupted => exact ih s
    | datagram source bytes =>
      unfold doRead
      simp only
      rw [ih, UdpSocket.packetCall_receive, packets, map_filter_cons Prod.snd, List.append_assoc]
      by_cases hwell : WellFormed (delivered bytes)
      · rw [if_pos hwell, if_pos hwell]
        rfl
      · rw [if_neg hwell, if_neg hwell]
        rfl

theorem reads_calls (s : UdpServer Addr) (reads : List (List (RecvFrom Addr))) :
    (reads.foldl doRead s).calls = s.calls ++
      ((reads.flatMap packets).filter fun packet => WellFormed packet.2).map fun packet =>
        (packet.1, callOf packet.2) := by
  induction reads generalizing s with
  | nil => exact (List.append_nil _).symm
  | cons results reads ih =>
    rw [List.foldl_cons, ih, doRead_calls, List.flatMap_cons, List.filter_append,
      List.map_append, List.append_assoc]

end UdpServer

/-- **Exactly the well-formed datagrams are dispatched**, by a client and by a server, in every
    sequence of `do_read` calls and whatever their buffers held before. -/
theorem dispatched_wellFormed {Addr : Type} :
    (∀ (client : UdpSocket) (reads : List (List RecvResult)),
      (reads.foldl UdpSocket.doRead client).calls =
        client.calls ++ ((reads.flatMap UdpSocket.packets).filter (WellFormed ·)).map callOf) ∧
    ∀ (server : UdpServer Addr) (reads : List (List (RecvFrom Addr))),
      (reads.foldl UdpServer.doRead server).calls = server.calls ++
        ((reads.flatMap UdpServer.packets).filter fun packet => WellFormed packet.2).map
          fun packet => (packet.1, callOf packet.2) :=
  ⟨UdpSocket.reads_calls, UdpServer.reads_calls⟩

end LarsSystem.Reactor
