import LarsSystem.LarsWire

/-!
# The messages of `lars.proto` on the wire

A message travels as its id and its serialized body; the receiver's router picks
the class by the id. What was written is read back (`parse_serialize`), also by a
peer whose message has fields that this one does not know (`parse_withUnknown`).
The size that the senders ask for is the size that they get, and it bounds how
many hosts a response, and how many results a report may carry (`serialize_size`).
The generated inner loops over repeated fields read what the outer loop reads
(`repeated_unrolled`). A message has no body exactly if it is all zero
(`serialize_eq_nil_iff`).

`ReportRequest`, by which the API tells its agent how a call went, is not among the
messages here: `lars.proto` has it, but the generated `lars.pb.cpp` has no class for it.
-/

namespace LarsSystem

open LarsSystem.MachineWord
open LarsSystem.WireFormat
open LarsSystem.Reactor (messageLengthLimit)

def ID_GetRouteRequest : CInt := 1
def ID_GetRouteResponse : CInt := 2
def ID_ReportStatusRequest : CInt := 3
def ID_GetHostRequest : CInt := 4

inductive LarsMessage where
  | getRouteRequest (m : GetRouteRequest)
  | getRouteResponse (m : GetRouteResponse)
  | reportStatusRequest (m : ReportStatusRequest)
  | getHostRequest (m : GetHostRequest)
  | getHostResponse (m : GetHostResponse)
deriving DecidableEq

namespace LarsMessage

def msgid : LarsMessage → CInt
  | getRouteRequest _ => ID_GetRouteRequest
  | getRouteResponse _ => ID_GetRouteResponse
  | reportStatusRequest _ => ID_ReportStatusRequest
  | getHostRequest _ => ID_GetHostRequest
  | getHostResponse _ => ID_GetHostResponse

variable (R : Runtime)

/-- `SerializeToString`. -/
def serialize : LarsMessage → Bytes
  | getRouteRequest m => m.internalSerialize R
  | getRouteResponse m => m.internalSerialize R
  | reportStatusRequest m => m.internalSerialize R
  | getHostRequest m => m.internalSerialize R
  | getHostResponse m => m.internalSerialize R

def byteSizeLong : LarsMessage → Nat
  | getRouteRequest m => m.byteSizeLong R
  | getRouteResponse m => m.byteSizeLong R
  | reportStatusRequest m => m.byteSizeLong R
  | getHostRequest m => m.byteSizeLong R
  | getHostResponse m => m.byteSizeLong R

/-- `ParseFromArray` into a message of the class that belongs to the id: the message, and
    whether all of the body was read. -/
def parseFromArray (msgid : CInt) (bytes : Bytes) : Option (LarsMessage × Bool) :=
  if msgid = ID_GetRouteRequest then
    some (((GetRouteRequest.messageClass R).parseFromArray bytes).map getRouteRequest id)
  else if msgid = ID_GetRouteResponse then
    some (((GetRouteResponse.messageClass R).parseFromArray bytes).map getRouteResponse id)
  else if msgid = ID_ReportStatusRequest then
    some (((ReportStatusRequest.messageClass R).parseFromArray bytes).map reportStatusRequest id)
  else if msgid = ID_GetHostRequest then
    some (((GetHostRequest.messageClass R).parseFromArray bytes).map getHostRequest id)
  else if msgid = ID_GetHostResponse then
    some (((GetHostResponse.messageClass R).parseFromArray bytes).map getHostResponse id)
  else none

/-! ## Round trips -/

/-- The fields of the message as they are written, and any unknown fields in between. -/
def WithUnknown : LarsMessage → Bytes → Prop
  | getRouteRequest m => Interleaved R (GetRouteRequest.cases R) (m.pieces R)
  | getRouteResponse m => Interleaved R (GetRouteResponse.cases R) (m.pieces R)
  | reportStatusRequest m => Interleaved R (ReportStatusRequest.cases R) (m.pieces R)
  | getHostRequest m => Interleaved R (GetHostRequest.cases R) (m.pieces R)
  | getHostResponse m => Interleaved R (GetHostResponse.cases R) (m.pieces R)

variable {R}

theorem parse_of_withUnknown {m : LarsMessage} {bytes : Bytes} (hbytes : m.WithUnknown R bytes) :
    parseFromArray R m.msgid bytes = some (m, true) := by
  cases m with
  | getRouteRequest m =>
    have hparse := (GetRouteRequest.messageClass R).parse_interleaved hbytes
    simp [parseFromArray, msgid, hparse]
  | getRouteResponse m =>
    have hparse := (GetRouteResponse.messageClass R).parse_interleaved hbytes
    simp [parseFromArray, msgid, hparse, ID_GetRouteRequest, ID_GetRouteResponse]
  | reportStatusRequest m =>
    have hparse := (ReportStatusRequest.messageClass R).parse_interleaved hbytes
    simp [parseFromArray, msgid, hparse, ID_GetRouteRequest, ID_GetRouteResponse,
      ID_ReportStatusRequest]
  | getHostRequest m =>
    have hparse := (GetHostRequest.messageClass R).parse_interleaved hbytes
    simp [parseFromArray, msgid, hparse, ID_GetRouteRequest, ID_GetRouteResponse,
      ID_ReportStatusRequest, ID_GetHostRequest]
  | getHostResponse m =>
    have hparse := (GetHostResponse.messageClass R).parse_interleaved hbytes
    simp [parseFromArray, msgid, hparse, ID_GetRouteRequest, ID_GetRouteResponse,
      ID_ReportStatusRequest, ID_GetHostRequest, ID_GetHostResponse]

theorem withUnknown_serialize (m : LarsMessage) : m.WithUnknown R (m.serialize R) := by
  cases m with
  | getRouteRequest m => exact (GetRouteRequest.messageClass R).interleaved_serialize m
  | getRouteResponse m => exact (GetRouteResponse.messageClass R).interleaved_serialize m
  | reportStatusRequest m => exact (ReportStatusRequest.messageClass R).interleaved_serialize m
  | getHostRequest m => exact (GetHostRequest.messageClass R).interleaved_serialize m
  | getHostResponse m => exact (GetHostResponse.messageClass R).interleaved_serialize m

theorem parse_of_serialize (m : LarsMessage) :
    parseFromArray R m.msgid (m.serialize R) = some (m, true) :=
  parse_of_withUnknown (withUnknown_serialize m)

/-- **What was written is read**, and it stays the same with fields of a newer version anywhere
    between its own. -/
theorem parse_withUnknown (m : LarsMessage) :
    parseFromArray R m.msgid (m.serialize R) = some (m, true) ∧
      ∀ bytes, m.WithUnknown R bytes → parseFromArray R m.msgid bytes = some (m, true) :=
  ⟨parse_of_serialize m, fun _ hbytes => parse_of_withUnknown hbytes⟩

/-- A field 15 of a newer version, a varint. -/
theorem unknown_newField :
    Unknown Runtime.base128 (GetRouteRequest.cases Runtime.base128) [120, 7] := by
  refine ⟨makeTag 15 0, [7], rfl, rfl, by decide, ?_⟩
  intro rest
  rfl

theorem parse_withUnknown_newField :
    parseFromArray Runtime.base128 ID_GetRouteRequest [8, 1, 120, 7, 16, 2] =
      some (getRouteRequest ⟨1, 2⟩, true) := by
  refine (parse_withUnknown (getRouteRequest ⟨1, 2⟩)).2 _ ?_
  exact Interleaved.piece ⟨writeInt32 Runtime.base128 1 1, _⟩ (Interleaved.unknown [120, 7]
    unknown_newField (Interleaved.piece ⟨writeInt32 Runtime.base128 2 2, _⟩ Interleaved.nil))

/-! ## Sizes -/

theorem serialize_length (m : LarsMessage) : (m.serialize R).length = m.byteSizeLong R := by
  cases m with
  | getRouteRequest m => exact (GetRouteRequest.messageClass R).size_eq m
  | getRouteResponse m => exact (GetRouteResponse.messageClass R).size_eq m
  | reportStatusRequest m => exact (ReportStatusRequest.messageClass R).size_eq m
  | getHostRequest m => exact (GetHostRequest.messageClass R).size_eq m
  | getHostResponse m => exact (GetHostResponse.messageClass R).size_eq m

/-- The bytes that a message can take: its scalars at their longest, and its elements. -/
def roomFor : LarsMessage → Nat
  | getRouteRequest _ => 22
  | getRouteResponse m => 24 * m.hosts.length + 22
  | reportStatusRequest m => 38 * m.results.length + 39
  | getHostRequest _ => 28
  | getHostResponse _ => 63

theorem byteSizeLong_le (m : LarsMessage) : m.byteSizeLong R ≤ m.roomFor := by
  cases m with
  | getRouteRequest m => exact m.byteSizeLong_le R
  | getRouteResponse m => exact m.byteSizeLong_le R
  | reportStatusRequest m => exact m.byteSizeLong_le R
  | getHostRequest m => exact m.byteSizeLong_le R
  | getHostResponse m => exact m.byteSizeLong_le R

theorem serialize_le (m : LarsMessage) : (m.serialize R).length ≤ m.roomFor :=
  (serialize_length m).symm ▸ byteSizeLong_le m

/-! ### A runtime of varints takes all the room

An address with its high bit set is a negative `int32`, and takes ten bytes. -/

theorem sizeInt32_minusOne : sizeInt32 Runtime.base128 (-1) = 11 := by decide

theorem sizeUInt32_minusOne : sizeUInt32 Runtime.base128 (-1) = 6 := by decide

/-- A response with `n` hosts, and a report with `n` results, that take all their room. -/
def fullResponse (n : Nat) : GetRouteResponse := ⟨-1, -1, List.replicate n ⟨-1, -1⟩⟩

def fullReport (n : Nat) : ReportStatusRequest :=
  ⟨-1, -1, -1, List.replicate n ⟨-1, -1, -1, -1, true⟩, -1⟩

theorem fullResponse_size (n : Nat) :
    (getRouteResponse (fullResponse n)).byteSizeLong Runtime.base128 = 24 * n + 22 := by
  have hhost : (HostEntry.sub Runtime.base128).byteSizeLong ⟨-1, -1⟩ = 22 := by
    change HostEntry.byteSizeLong Runtime.base128 ⟨-1, -1⟩ = 22
    rw [HostEntry.byteSizeLong, sizeInt32_minusOne]
  rw [byteSizeLong, GetRouteResponse.byteSizeLong, fullResponse,
    sizeMessages_replicate _ hhost, sizeInt32_minusOne]

theorem fullReport_size (n : Nat) :
    (reportStatusRequest (fullReport n)).byteSizeLong Runtime.base128 = 38 * n + 39 := by
  have hresult : (HostCallResult.sub Runtime.base128).byteSizeLong ⟨-1, -1, -1, -1, true⟩ = 36 := by
    change HostCallResult.byteSizeLong Runtime.base128 ⟨-1, -1, -1, -1, true⟩ = 36
    rw [HostCallResult.byteSizeLong, sizeInt32_minusOne, sizeUInt32_minusOne]
    rfl
  rw [byteSizeLong, ReportStatusRequest.byteSizeLong, fullReport,
    sizeMessages_replicate _ hresult, sizeInt32_minusOne, sizeUInt32_minusOne]

/-- **How much a message can carry.** The size that is announced is the size that is written.
    Within the reader's limit are all requests and answers of the API, all responses with at most
    2729 hosts and all reports with at most 1723 results, and for larger numbers not all. -/
theorem serialize_size :
    (∀ (R : Runtime) (m : LarsMessage), (m.serialize R).length = m.byteSizeLong R) ∧
      (∀ R m, ((getRouteRequest m).serialize R).length ≤ 22) ∧
      (∀ R m, ((getHostRequest m).serialize R).length ≤ 28) ∧
      (∀ R m, ((getHostResponse m).serialize R).length ≤ 63) ∧
      (∀ n, (∀ R m, m.hosts.length = n →
        ((getRouteResponse m).serialize R).length ≤ messageLengthLimit) ↔ n ≤ 2729) ∧
      ∀ n, (∀ R m, m.results.length = n →
        ((reportStatusRequest m).serialize R).length ≤ messageLengthLimit) ↔ n ≤ 1723 := by
  have hlimit : messageLengthLimit = 65527 := rfl
  refine ⟨fun R m => serialize_length m, fun R m => serialize_le (getRouteRequest m),
    fun R m => serialize_le (getHostRequest m), fun R m => serialize_le (getHostResponse m), ?_, ?_⟩
  · intro n
    constructor
    · intro hall
      have hfull := hall Runtime.base128 (fullResponse n) List.length_replicate
      rw [serialize_length, fullResponse_size] at hfull
      omega
    · intro hn R m hm
      have hle : _ ≤ 24 * m.hosts.length + 22 := serialize_le (R := R) (getRouteResponse m)
      omega
  · intro n
    constructor
    · intro hall
      have hfull := hall Runtime.base128 (fullReport n) List.length_replicate
      rw [serialize_length, fullReport_size] at hfull
      omega
    · intro hn R m hm
      have hle : _ ≤ 38 * m.results.length + 39 := serialize_le (R := R) (reportStatusRequest m)
      omega

/-! ## Repeated fields -/

/-- The switches with the repeated fields taken one element at a time. -/
def responsePlain (R : Runtime) : List (FieldCase GetRouteResponse) :=
  [varint32Case R 1 8 GetRouteResponse.setModid, varint32Case R 2 16 GetRouteResponse.setCmdid,
    elementCase R (HostEntry.sub R) 3 26 GetRouteResponse.addHost]

def reportPlain (R : Runtime) : List (FieldCase ReportStatusRequest) :=
  [varint32Case R 1 8 ReportStatusRequest.setModid,
    varint32Case R 2 16 ReportStatusRequest.setCmdid,
    varint32Case R 3 24 ReportStatusRequest.setCaller,
    elementCase R (HostCallResult.sub R) 4 34 ReportStatusRequest.addResults,
    varint32Case R 5 40 ReportStatusRequest.setTs]

/-- **The inner loops over hosts and results read what the outer loop reads**, from every input
    and into every message. -/
theorem repeated_unrolled (R : Runtime) (bytes : Bytes) :
    (∀ m, internalParse R (GetRouteResponse.cases R) bytes m =
        internalParse R (responsePlain R) bytes m) ∧
      ∀ m, internalParse R (ReportStatusRequest.cases R) bytes m =
        internalParse R (reportPlain R) bytes m := by
  constructor
  · have hunrolled : Unrolled (HostEntry.sub R) (responsePlain R) (GetRouteResponse.cases R) 3 26
        GetRouteResponse.addHost := Unrolled.intro _ [_, _] []
    exact internalParse_unrolled _ hunrolled rfl (tagBytes_makeTag (by decide) (by decide)) bytes
  · have hunrolled : Unrolled (HostCallResult.sub R) (reportPlain R) (ReportStatusRequest.cases R)
        4 34 ReportStatusRequest.addResults := Unrolled.intro _ [_, _, _] [_]
    exact internalParse_unrolled _ hunrolled rfl (tagBytes_makeTag (by decide) (by decide)) bytes

/-! ## Messages without a body -/

/-- The message of the same class that is all zero. -/
def cleared : LarsMessage → LarsMessage
  | getRouteRequest _ => getRouteRequest ⟨0, 0⟩
  | getRouteResponse _ => getRouteResponse ⟨0, 0, []⟩
  | reportStatusRequest _ => reportStatusRequest ⟨0, 0, 0, [], 0⟩
  | getHostRequest _ => getHostRequest ⟨0, 0, 0⟩
  | getHostResponse _ => getHostResponse ⟨0, 0, 0, 0, none⟩

theorem serialize_cleared (m : LarsMessage) : m.cleared.serialize R = [] := by
  cases m <;> rfl

theorem msgid_cleared (m : LarsMessage) : m.cleared.msgid = m.msgid := by
  cases m <;> rfl

theorem serialize_eq_nil_iff (m : LarsMessage) : m.serialize R = [] ↔ m = m.cleared := by
  constructor
  · intro hnil
    have hparse := parse_of_serialize (R := R) m
    have hcleared := parse_of_serialize (R := R) m.cleared
    rw [hnil] at hparse
    rw [serialize_cleared, msgid_cleared, hparse] at hcleared
    simpa using hcleared
  · intro heq
    rw [heq, serialize_cleared]

end LarsMessage

end LarsSystem
