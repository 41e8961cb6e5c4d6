import LarsSystem.LengthFraming
import LarsSystem.MachineWord

/-!
# The message format of the TCP layer

Every message is an eight-byte `msg_head` (message id and body length, in memory
order) followed by its body. `do_read` refuses a header whose length is negative
or above `MESSAGE_LENGTH_LIMIT`; `send_message` writes whatever length it is
given, so a message is well formed for the reader only within the limit
(`Message.announced_iff`).
-/

namespace LarsSystem.Reactor

open LarsSystem.MachineWord
open LarsSystem.LengthFraming

/-! ## `msg_head` -/

def messageHeadLen : Nat := 8

def messageLengthLimit : Nat := 65535 - messageHeadLen

structure MsgHead where
  msgid : CInt
  msglen : CInt
deriving DecidableEq

def MsgHead.bytes (head : MsgHead) : List Byte := le32 head.msgid ++ le32 head.msglen

def MsgHead.ofBytes (bytes : List Byte) : MsgHead := ⟨ofLe32 bytes, ofLe32 (bytes.drop 4)⟩

@[simp] theorem MsgHead.bytes_length (head : MsgHead) : head.bytes.length = 8 := rfl

theorem MsgHead.ofBytes_append (head : MsgHead) (more : List Byte) :
    MsgHead.ofBytes (head.bytes ++ more) = head := by
  have hdrop : (head.bytes ++ more).drop 4 = le32 head.msglen ++ more := by
    rw [MsgHead.bytes, List.append_assoc, List.drop_left' (le32_length _)]
  rw [MsgHead.ofBytes, hdrop, ofLe32_append, MsgHead.bytes, List.append_assoc, ofLe32_append]

theorem MsgHead.ofBytes_bytes (head : MsgHead) : MsgHead.ofBytes head.bytes = head := by
  simpa using MsgHead.ofBytes_append head []

theorem MsgHead.bytes_ofBytes {bytes : List Byte} (hlen : bytes.length = 8) :
    (MsgHead.ofBytes bytes).bytes = bytes := by
  have hsplit : bytes.take 4 ++ bytes.drop 4 = bytes := List.take_append_drop 4 bytes
  have hfront : ofLe32 bytes = ofLe32 (bytes.take 4) := by
    match bytes, hlen with
    | [_, _, _, _, _, _, _, _], _ => rfl
  rw [MsgHead.ofBytes, MsgHead.bytes, hfront,
    le32_ofLe32 (by simp only [List.length_take]; omega),
    le32_ofLe32 (by simp only [List.length_drop]; omega), hsplit]

/-- The length check of `do_read`: out of range, or the length of the body. -/
def MsgHead.bodyLen (head : MsgHead) : Option Nat :=
  if (messageLengthLimit : Int) < head.msglen.toInt ∨ head.msglen.toInt < 0 then none
  else some head.msglen.toInt.toNat

/-- The frame format of the TCP layer. -/
def msgCodec : Codec Byte MsgHead where
  headLen := messageHeadLen
  headLen_pos := by decide
  decode := MsgHead.ofBytes
  encode := MsgHead.bytes
  bodyLen := MsgHead.bodyLen
  encode_length := MsgHead.bytes_length
  decode_encode := MsgHead.ofBytes_bytes
  encode_decode _ hlen := MsgHead.bytes_ofBytes hlen

/-! ## Messages handed to `send_message` -/

/-- A message id and a body whose length is a C `int`. -/
structure Message where
  msgid : CInt
  body : List Byte
  fits : body.length < 2 ^ 31
deriving DecidableEq

namespace Message

def head (m : Message) : MsgHead := ⟨m.msgid, BitVec.ofNat 32 m.body.length⟩

def frame (m : Message) : MsgHead × List Byte := (m.head, m.body)

def bytes (m : Message) : List Byte := encodeFrame msgCodec m.frame

theorem bytes_eq (m : Message) : m.bytes = m.head.bytes ++ m.body := rfl

@[simp] theorem bytes_length (m : Message) : m.bytes.length = messageHeadLen + m.body.length := by
  simp [bytes_eq, messageHeadLen]

theorem head_msglen (m : Message) : m.head.msglen.toInt = m.body.length := by
  have hfits := m.fits
  rw [head, BitVec.toInt_eq_toNat_cond, BitVec.toNat_ofNat,
    Nat.mod_eq_of_lt (by omega), if_pos (by omega)]

theorem head_bodyLen (m : Message) : m.head.bodyLen =
    if messageLengthLimit < m.body.length then none else some m.body.length := by
  rw [MsgHead.bodyLen, head_msglen]
  split <;> split <;> simp <;> omega

/-- **The reader accepts a message exactly within the length limit.** -/
theorem announced_iff (m : Message) :
    Announced msgCodec m.frame ↔ m.body.length ≤ messageLengthLimit := by
  change MsgHead.bodyLen m.head = some m.body.length ↔ _
  rw [head_bodyLen]
  split <;> simp <;> omega

theorem parse_bytes (m : Message) (hlimit : m.body.length ≤ messageLengthLimit) :
    parse msgCodec m.bytes = ⟨[m.frame], [], false⟩ := by
  have hparse := parse_encodeFrame_append msgCodec m.frame (m.announced_iff.mpr hlimit) []
  rw [List.append_nil, parse_nil] at hparse
  exact hparse

theorem parse_bytes_oversized (m : Message) (hlong : messageLengthLimit < m.body.length) :
    parse msgCodec m.bytes = ⟨[], m.bytes, true⟩ := by
  apply parse_malformed
  · rw [bytes_length]
    exact Nat.le_add_right _ _
  · have htake : m.bytes.take msgCodec.headLen = m.head.bytes := by
      rw [bytes_eq]
      exact List.take_left' (MsgHead.bytes_length _)
    have hdecode : msgCodec.decode m.head.bytes = m.head := msgCodec.decode_encode m.head
    rw [htake, hdecode]
    change m.head.bodyLen = none
    rw [head_bodyLen, if_pos hlong]

/-- The bytes of messages sent one after another. -/
def stream (messages : List Message) : List Byte := (messages.map bytes).flatten

theorem stream_eq (messages : List Message) :
    stream messages = encodeFrames msgCodec (messages.map frame) := by
  simp only [stream, encodeFrames, List.map_map]
  rfl

@[simp] theorem stream_append (first second : List Message) :
    stream (first ++ second) = stream first ++ stream second := by
  simp [stream]

@[simp] theorem stream_singleton (m : Message) : stream [m] = m.bytes := by
  simp [stream]

theorem head_injective {m m' : Message} (hhead : m.head = m'.head) :
    m.msgid = m'.msgid ∧ m.body.length = m'.body.length := by
  have hlen := congrArg (fun head : MsgHead => head.msglen.toInt) hhead
  simp only [head_msglen] at hlen
  exact ⟨congrArg MsgHead.msgid hhead, by omega⟩

/-- **A stream determines its messages**: where one stream begins another, so do the
    messages. -/
theorem prefix_of_stream_prefix {first second : List Message}
    (hinitial : stream first <+: stream second) : first <+: second := by
  induction first generalizing second with
  | nil => exact List.nil_prefix
  | cons m first ih =>
    obtain ⟨more, hmore⟩ := hinitial
    cases second with
    | nil =>
      have hlen := congrArg List.length hmore
      simp [stream, messageHeadLen] at hlen
    | cons m' second =>
      have hsplit : m.head.bytes ++ (m.body ++ (stream first ++ more)) =
          m'.head.bytes ++ (m'.body ++ stream second) := by
        simpa [stream, bytes_eq, List.append_assoc] using hmore
      obtain ⟨hheads, hbodies⟩ := List.append_inj hsplit (by simp)
      have hhead : m.head = m'.head := by
        have hread := congrArg MsgHead.ofBytes hheads
        rwa [MsgHead.ofBytes_bytes, MsgHead.ofBytes_bytes] at hread
      obtain ⟨hmsgid, hlen⟩ := head_injective hhead
      obtain ⟨hbody, hrest⟩ := List.append_inj hbodies hlen
      have hm : m = m' := by
        cases m
        cases m'
        simp only at hmsgid hbody
        subst hmsgid hbody
        rfl
      rw [hm, List.cons_prefix_cons]
      exact ⟨rfl, ih ⟨more, hrest⟩⟩

end Message

end LarsSystem.Reactor
