import LarsSystem.UdpMessage

/-!
# The room for a message in a datagram buffer

`MESSAGE_LENGTH_LIMIT` bounds a body and leaves out the header, and the buffers
that hold header and body together have the same size. A body of the last eight
lengths that the check of `send_message` lets pass is written past the end of
`_write_buf`, and a datagram with such a body, whoever built it, is cut short by
the `_read_buf` of its receiver.
-/

namespace LarsSystem.Reactor

open LarsSystem.MachineWord

namespace UdpSocket

/-- The length check of `send_message`. -/
def PassesCheck (m : Message) : Prop := ¬ messageLengthLimit < m.body.length

/-- **What the check promises**: `_write_buf` holds the message, and the `_read_buf` of a receiver
    holds the datagram. -/
structure HasRoom (sender : Sender) (m : Message) : Prop where
  stored : ∀ (u : UdpSocket) (sendtoOk : Bool) (fault : Fault),
    sender.send u m sendtoOk ≠ Except.error fault
  whole : ∀ (peer : UdpSocket) (packet : List Byte),
    packet.length = messageHeadLen + m.body.length → (peer.receive packet).1 = packet.length

theorem memcpy_head (u : UdpSocket) (m : Message) :
    ∃ headed, u.writeBuf.memcpy 0 m.head.bytes = Except.ok headed := by
  have hfits : 0 + m.head.bytes.length ≤ messageLengthLimit := by
    rw [m.head.bytes_length]
    decide
  exact ⟨_, dif_pos hfits⟩

theorem sendPacket_stored {u : UdpSocket} {m : Message} {copied : List Byte} {sendtoOk : Bool}
    (hcopied : copied.length = m.body.length)
    (hroom : messageHeadLen + m.body.length ≤ messageLengthLimit) (fault : Fault) :
    u.sendPacket m copied sendtoOk ≠ Except.error fault := by
  obtain ⟨headed, hheaded⟩ := memcpy_head u m
  have hwritten : ∃ written, headed.memcpy messageHeadLen copied = Except.ok written :=
    ⟨_, dif_pos (by rw [hcopied]; exact hroom)⟩
  obtain ⟨written, hwritten⟩ := hwritten
  unfold sendPacket
  rw [if_neg (by omega), hheaded]
  simp only [hwritten]
  cases sendtoOk <;> simp

theorem sendPacket_overruns {u : UdpSocket} {m : Message} {copied : List Byte} {sendtoOk : Bool}
    (hcopied : copied.length = m.body.length) (hpasses : PassesCheck m)
    (hroom : messageLengthLimit < messageHeadLen + m.body.length) :
    u.sendPacket m copied sendtoOk = Except.error .outOfBounds := by
  obtain ⟨headed, hheaded⟩ := memcpy_head u m
  have hwritten : headed.memcpy messageHeadLen copied = Except.error .outOfBounds :=
    dif_neg (by rw [hcopied]; omega)
  unfold sendPacket
  rw [if_neg hpasses, hheaded]
  simp only [hwritten]

/-- Both senders copy as many bytes as the body has. -/
theorem Sender.send_eq (sender : Sender) (u : UdpSocket) (m : Message) (sendtoOk : Bool) :
    ∃ copied : List Byte, copied.length = m.body.length ∧
      sender.send u m sendtoOk = u.sendPacket m copied sendtoOk := by
  cases sender with
  | client => exact ⟨m.body, rfl, rfl⟩
  | server atData =>
    exact ⟨(List.range m.body.length).map atData, by rw [List.length_map, List.length_range], rfl⟩

theorem receive_length (peer : UdpSocket) (packet : List Byte) :
    (peer.receive packet).1 = packet.length ↔ packet.length ≤ messageLengthLimit := by
  change (packet.take messageLengthLimit).length = packet.length ↔ _
  rw [List.length_take]
  omega

/-- **The check leaves room for the header exactly below the last eight lengths.** -/
theorem hasRoom_iff (sender : Sender) (m : Message) :
    (PassesCheck m → HasRoom sender m) ↔
      messageHeadLen + m.body.length ≤ messageLengthLimit ∨
        messageLengthLimit < m.body.length := by
  constructor
  · intro hpromise
    by_contra hlen
    have hpasses : PassesCheck m := fun hlong => hlen (Or.inr hlong)
    obtain ⟨copied, hcopied, hsend⟩ := sender.send_eq ⟨.zero, .zero, []⟩ m true
    refine (hpromise hpasses).stored ⟨.zero, .zero, []⟩ true .outOfBounds ?_
    rw [hsend, sendPacket_overruns hcopied hpasses (by omega)]
  · intro hlen hpasses
    have hroom : messageHeadLen + m.body.length ≤ messageLengthLimit :=
      hlen.resolve_right hpasses
    constructor
    · intro u sendtoOk fault
      obtain ⟨copied, hcopied, hsend⟩ := sender.send_eq u m sendtoOk
      rw [hsend]
      exact sendPacket_stored hcopied hroom fault
    · intro peer packet hpacket
      rw [receive_length, hpacket]
      exact hroom

/-- A body of the length that the check names. -/
theorem longest_body_overruns :
    ∃ m : Message, m.body = List.replicate messageLengthLimit 0 ∧ PassesCheck m ∧
      ∀ sender, ¬ HasRoom sender m := by
  have hlen : (List.replicate messageLengthLimit (0 : Byte)).length = messageLengthLimit :=
    List.length_replicate
  refine ⟨⟨1, List.replicate messageLengthLimit 0, by rw [hlen]; decide⟩, rfl, ?_, ?_⟩
  · intro hlong
    exact absurd hlong (by rw [hlen]; exact Nat.lt_irrefl _)
  · intro sender hroom
    have hpacket := hroom.whole ⟨.zero, .zero, []⟩
      (List.replicate (messageHeadLen + messageLengthLimit) 0)
      (by rw [List.length_replicate, hlen])
    rw [receive_length, List.length_replicate] at hpacket
    exact absurd hpacket (by decide)

end UdpSocket

end LarsSystem.Reactor
