import LarsSystem.MachineWord
import Mathlib.Algebra.GroupWithZero.Nat

/-!
# Tagged fields

The wire format behind generated message classes: a message is a sequence of
fields, each a tag and a payload that the type in the tag delimits. A generated
parser reads a tag, switches on the field number, and goes on behind the payload;
it skips what it does not know, and takes the elements of a repeated field in an
inner loop as long as the next byte is the same tag. The runtime that it calls is
a parameter, with what generated code relies on.

A piece of input is *absorbed* when a parser that meets it goes on behind it with
the message changed in a known way, whatever follows. Pieces that are absorbed one
by one are absorbed one after another, and so is a serialized message.
-/

namespace LarsSystem.WireFormat

open LarsSystem.MachineWord

universe u v

abbrev Bytes := List Byte

/-- The runtime. A reader gives the value and what follows it; nothing follows where the input
    is malformed. -/
structure Runtime where
  readTag : Bytes → BitVec 32 × Option Bytes
  readVarint32 : Bytes → BitVec 32 × Option Bytes
  readVarint64 : Bytes → BitVec 64 × Option Bytes
  /-- A length, and the input cut at it. -/
  readDelimited : Bytes → Option (Bytes × Bytes)
  unknownFieldParse : BitVec 32 → Bytes → Option Bytes
  tagBytes : BitVec 32 → Bytes
  int32Bytes : BitVec 32 → Bytes
  uint32Bytes : BitVec 32 → Bytes
  boolBytes : Bool → Bytes
  lengthBytes : Nat → Bytes
  int32Size : BitVec 32 → Nat
  uint32Size : BitVec 32 → Nat
  lengthSize : Nat → Nat
  -- what is written is read, whatever follows
  readTag_tagBytes : ∀ tag more, readTag (tagBytes tag ++ more) = (tag, some more)
  readVarint32_int32 : ∀ value more, readVarint32 (int32Bytes value ++ more) = (value, some more)
  readVarint32_uint32 : ∀ value more,
    readVarint32 (uint32Bytes value ++ more) = (value, some more)
  readVarint64_bool : ∀ value more,
    readVarint64 (boolBytes value ++ more) = (if value then 1 else 0, some more)
  readDelimited_length : ∀ body more, body.length < 2 ^ 30 →
    readDelimited (lengthBytes body.length ++ (body ++ more)) = some (body, more)
  -- a reader goes forward
  readTag_lt : ∀ bytes tag rest, readTag bytes = (tag, some rest) → rest.length < bytes.length
  readVarint32_le : ∀ bytes value rest,
    readVarint32 bytes = (value, some rest) → rest.length ≤ bytes.length
  readVarint64_le : ∀ bytes value rest,
    readVarint64 bytes = (value, some rest) → rest.length ≤ bytes.length
  readDelimited_le : ∀ bytes body rest,
    readDelimited bytes = some (body, rest) → rest.length ≤ bytes.length
  unknownFieldParse_le : ∀ tag bytes rest,
    unknownFieldParse tag bytes = some rest → rest.length ≤ bytes.length
  -- the sizes
  tagBytes_short : ∀ tag, tag < 128 → tagBytes tag = [tag.setWidth 8]
  int32Size_eq : ∀ value, int32Size value = (int32Bytes value).length
  uint32Size_eq : ∀ value, uint32Size value = (uint32Bytes value).length
  lengthSize_eq : ∀ n, lengthSize n = (lengthBytes n).length
  int32_size : ∀ value, (int32Bytes value).length ≤ 10
  uint32_size : ∀ value, (uint32Bytes value).length ≤ 5
  bool_size : ∀ value, (boolBytes value).length = 1
  length_size : ∀ n, n < 128 → (lengthBytes n).length = 1

/-! ## The switch of a parser -/

/-- A `case`: its field number, the tag byte that it asks for, and its body. -/
structure FieldCase (M : Type u) where
  number : Nat
  tagByte : Byte
  read : Bytes → M → M × Option Bytes
  read_le : ∀ bytes m m' rest, read bytes m = (m', some rest) → rest.length ≤ bytes.length

def FieldCase.handles {M : Type u} (c : FieldCase M) (tag : BitVec 32) : Bool :=
  decide ((tag >>> 3).toNat = c.number) && decide (tag.setWidth 8 = c.tagByte)

section Parser

variable {M : Type u} (R : Runtime) (cases : List (FieldCase M))

/-- One round: a field of a case, or one that is skipped. A tag of zero and the end of a group
    end the message where none can end. -/
def parseField (bytes : Bytes) (m : M) : M × Option Bytes :=
  match R.readTag bytes with
  | (_, none) => (m, none)
  | (tag, some rest) =>
    match cases.find? (FieldCase.handles · tag) with
    | some c => c.read rest m
    | none => if tag = 0 ∨ tag &&& 7 = 4 then (m, none) else (m, R.unknownFieldParse tag rest)

variable {R cases}

theorem parseField_lt {bytes rest : Bytes} {m m' : M}
    (hfield : parseField R cases bytes m = (m', some rest)) : rest.length < bytes.length := by
  unfold parseField at hfield
  split at hfield
  · cases hfield
  · rename_i tag behind htag
    have hlt := R.readTag_lt _ _ _ htag
    split at hfield
    · rename_i c _
      exact Nat.lt_of_le_of_lt (c.read_le _ _ _ _ hfield) hlt
    · split at hfield
      · cases hfield
      · have hskip := congrArg Prod.snd hfield
        exact Nat.lt_of_le_of_lt (R.unknownFieldParse_le _ _ _ hskip) hlt

variable (R cases)

/-- `_InternalParse` up to the limit of the input: the message, and whether it got there. -/
def internalParse (bytes : Bytes) (m : M) : M × Bool :=
  if bytes = [] then (m, true)
  else
    match _hfield : parseField R cases bytes m with
    | (m, none) => (m, false)
    | (m, some rest) => internalParse rest m
termination_by bytes.length
decreasing_by exact parseField_lt _hfield

/-- What a parser does behind a field. -/
def andThen (field : M × Option Bytes) : M × Bool :=
  match field with
  | (m, none) => (m, false)
  | (m, some rest) => internalParse R cases rest m

variable {R cases}

@[simp] theorem internalParse_nil (m : M) : internalParse R cases [] m = (m, true) := by
  rw [internalParse, if_pos rfl]

theorem internalParse_field {bytes : Bytes} (hne : bytes ≠ []) (m : M) :
    internalParse R cases bytes m = andThen R cases (parseField R cases bytes m) := by
  rw [internalParse, if_neg hne]
  unfold andThen
  split <;> rename_i hfield <;> rw [hfield]

theorem parseField_tag (tag : BitVec 32) (rest : Bytes) (m : M) :
    parseField R cases (R.tagBytes tag ++ rest) m =
      match cases.find? (FieldCase.handles · tag) with
      | some c => c.read rest m
      | none =>
        if tag = 0 ∨ tag &&& 7 = 4 then (m, none) else (m, R.unknownFieldParse tag rest) := by
  unfold parseField
  rw [R.readTag_tagBytes]

theorem tagBytes_ne_nil (tag : BitVec 32) : R.tagBytes tag ≠ [] := by
  intro hnil
  have hlt := R.readTag_lt _ _ _ (R.readTag_tagBytes tag [])
  rw [hnil] at hlt
  exact absurd hlt (Nat.lt_irrefl _)

theorem internalParse_tag (tag : BitVec 32) (rest : Bytes) (m : M) :
    internalParse R cases (R.tagBytes tag ++ rest) m =
      andThen R cases (parseField R cases (R.tagBytes tag ++ rest) m) :=
  internalParse_field (List.append_ne_nil_of_left_ne_nil (tagBytes_ne_nil tag) rest) m

end Parser

/-! ## Pieces that a parser absorbs -/

section Absorbs

variable {M : Type u} {R : Runtime} {cases : List (FieldCase M)}

/-- A parser that meets the piece goes on behind it with the message changed by `effect`. -/
def Absorbs (R : Runtime) (cases : List (FieldCase M)) (piece : Bytes) (effect : M → M) : Prop :=
  ∀ m rest, internalParse R cases (piece ++ rest) m = internalParse R cases rest (effect m)

theorem absorbs_nil : Absorbs R cases [] id := fun _ _ => rfl

theorem Absorbs.append {first second : Bytes} {f g : M → M} (hfirst : Absorbs R cases first f)
    (hsecond : Absorbs R cases second g) : Absorbs R cases (first ++ second) fun m => g (f m) := by
  intro m rest
  rw [List.append_assoc, hfirst, hsecond]

/-- A parser that meets nothing else ends well. -/
theorem Absorbs.parse {piece : Bytes} {effect : M → M} (habsorbs : Absorbs R cases piece effect)
    (m : M) : internalParse R cases piece m = (effect m, true) := by
  have hparse := habsorbs m []
  rwa [List.append_nil, internalParse_nil] at hparse

theorem absorbs_case {tag : BitVec 32} {c : FieldCase M} {payload : Bytes} {effect : M → M}
    (hcase : cases.find? (FieldCase.handles · tag) = some c)
    (hread : ∀ m rest, c.read (payload ++ rest) m = (effect m, some rest)) :
    Absorbs R cases (R.tagBytes tag ++ payload) effect := by
  intro m rest
  rw [List.append_assoc, internalParse_tag, parseField_tag, hcase]
  simp only [hread, andThen]

/-- A field that no case handles, with a payload that the runtime can skip. -/
structure Unknown (R : Runtime) (cases : List (FieldCase M)) (piece : Bytes) : Prop where
  split : ∃ tag payload, piece = R.tagBytes tag ++ payload ∧
    cases.find? (FieldCase.handles · tag) = none ∧ ¬ (tag = 0 ∨ tag &&& 7 = 4) ∧
      ∀ rest, R.unknownFieldParse tag (payload ++ rest) = some rest

theorem Unknown.absorbs {piece : Bytes} (hunknown : Unknown R cases piece) :
    Absorbs R cases piece id := by
  obtain ⟨tag, payload, rfl, hnone, hends, hskip⟩ := hunknown.split
  intro m rest
  rw [List.append_assoc, internalParse_tag, parseField_tag, hnone]
  simp only [if_neg hends, hskip, andThen, id]

/-- A piece of input with its effect. -/
structure Piece (M : Type u) where
  bytes : Bytes
  effect : M → M

def Piece.applyAll (pieces : List (Piece M)) (m : M) : M :=
  pieces.foldl (fun m piece => piece.effect m) m

def AbsorbsAll (R : Runtime) (cases : List (FieldCase M)) (pieces : List (Piece M)) : Prop :=
  ∀ piece ∈ pieces, Absorbs R cases piece.bytes piece.effect

theorem absorbsAll_nil : AbsorbsAll R cases [] := List.forall_mem_nil _

theorem absorbsAll_cons {piece : Piece M} {pieces : List (Piece M)} :
    AbsorbsAll R cases (piece :: pieces) ↔
      Absorbs R cases piece.bytes piece.effect ∧ AbsorbsAll R cases pieces :=
  List.forall_mem_cons

theorem absorbsAll_append {pieces pieces' : List (Piece M)} :
    AbsorbsAll R cases (pieces ++ pieces') ↔
      AbsorbsAll R cases pieces ∧ AbsorbsAll R cases pieces' :=
  List.forall_mem_append

/-- The pieces in their order, with unknown fields before, between and behind them. -/
inductive Interleaved (R : Runtime) (cases : List (FieldCase M)) : List (Piece M) → Bytes → Prop
  | nil : Interleaved R cases [] []
  | piece {pieces : List (Piece M)} {bytes : Bytes} (first : Piece M) :
      Interleaved R cases pieces bytes →
        Interleaved R cases (first :: pieces) (first.bytes ++ bytes)
  | unknown {pieces : List (Piece M)} {bytes : Bytes} (extra : Bytes) :
      Unknown R cases extra → Interleaved R cases pieces bytes →
        Interleaved R cases pieces (extra ++ bytes)

@[simp] theorem Piece.applyAll_nil (m : M) : Piece.applyAll [] m = m := rfl

@[simp] theorem Piece.applyAll_cons (piece : Piece M) (pieces : List (Piece M)) (m : M) :
    Piece.applyAll (piece :: pieces) m = Piece.applyAll pieces (piece.effect m) := rfl

@[simp] theorem Piece.applyAll_append (pieces pieces' : List (Piece M)) (m : M) :
    Piece.applyAll (pieces ++ pieces') m = Piece.applyAll pieces' (Piece.applyAll pieces m) :=
  List.foldl_append

theorem interleaved_plain (pieces : List (Piece M)) :
    Interleaved R cases pieces (pieces.flatMap Piece.bytes) := by
  induction pieces with
  | nil => exact Interleaved.nil
  | cons first pieces ih =>
    rw [List.flatMap_cons]
    exact Interleaved.piece first ih

/-- **What a parser does not know changes nothing**, wherever it stands between the fields. -/
theorem AbsorbsAll.interleaved {pieces : List (Piece M)} {bytes : Bytes}
    (hpieces : AbsorbsAll R cases pieces) (hbytes : Interleaved R cases pieces bytes) :
    Absorbs R cases bytes (Piece.applyAll pieces) := by
  induction hbytes with
  | nil => exact absorbs_nil
  | piece first _ ih =>
    obtain ⟨hfirst, hrest⟩ := List.forall_mem_cons.mp hpieces
    exact hfirst.append (ih hrest)
  | unknown extra hunknown _ ih => exact hunknown.absorbs.append (ih hpieces)

end Absorbs

/-! ## The kinds of fields

What the generated code has for a field of each kind: the case that reads it, and
what it writes and counts. A scalar that is zero is not written. The numbers are
below 16, so that a tag is one byte. -/

def makeTag (number wireType : Nat) : BitVec 32 := BitVec.ofNat 32 (8 * number + wireType)

section Scalars

variable {M : Type u} (R : Runtime)

def varint32Case (number : Nat) (tagByte : Byte) (set : M → BitVec 32 → M) : FieldCase M where
  number := number
  tagByte := tagByte
  read := fun bytes m => (set m (R.readVarint32 bytes).1, (R.readVarint32 bytes).2)
  read_le := by
    intro bytes m m' rest hread
    have hrest : (R.readVarint32 bytes).2 = some rest := congrArg Prod.snd hread
    exact R.readVarint32_le bytes _ rest (Prod.ext rfl hrest)

def boolCase (number : Nat) (tagByte : Byte) (set : M → Bool → M) : FieldCase M where
  number := number
  tagByte := tagByte
  read := fun bytes m =>
    (set m (decide ((R.readVarint64 bytes).1 ≠ 0)), (R.readVarint64 bytes).2)
  read_le := by
    intro bytes m m' rest hread
    have hrest : (R.readVarint64 bytes).2 = some rest := congrArg Prod.snd hread
    exact R.readVarint64_le bytes _ rest (Prod.ext rfl hrest)

def writeInt32 (number : Nat) (value : BitVec 32) : Bytes :=
  if value ≠ 0 then R.tagBytes (makeTag number 0) ++ R.int32Bytes value else []

def writeUInt32 (number : Nat) (value : BitVec 32) : Bytes :=
  if value ≠ 0 then R.tagBytes (makeTag number 0) ++ R.uint32Bytes value else []

def writeBool (number : Nat) (value : Bool) : Bytes :=
  if value then R.tagBytes (makeTag number 0) ++ R.boolBytes value else []

def sizeInt32 (value : BitVec 32) : Nat := if value ≠ 0 then R.int32Size value + 1 else 0

def sizeUInt32 (value : BitVec 32) : Nat := if value ≠ 0 then R.uint32Size value + 1 else 0

def sizeBool (value : Bool) : Nat := if value then 1 + 1 else 0

/-- What a merge makes of a scalar field. -/
def merged {α : Type v} [DecidableEq α] (zero old value : α) : α :=
  if value ≠ zero then value else old

theorem merged_zero {α : Type v} [DecidableEq α] (zero value : α) :
    merged zero zero value = value := by
  unfold merged
  split
  · rfl
  · rename_i heq
    exact (not_not.mp heq).symm

variable {R} {cases : List (FieldCase M)}

theorem absorbs_int32 {number : Nat} {tagByte : Byte} (get : M → BitVec 32)
    (set : M → BitVec 32 → M)
    (hcase : cases.find? (FieldCase.handles · (makeTag number 0)) =
      some (varint32Case R number tagByte set))
    (hself : ∀ m, set m (get m) = m) (value : BitVec 32) :
    Absorbs R cases (writeInt32 R number value) fun m => set m (merged 0 (get m) value) := by
  unfold writeInt32 merged
  split
  · refine absorbs_case hcase ?_
    intro m rest
    simp only [varint32Case, R.readVarint32_int32]
  · simp only [hself]
    exact absorbs_nil

theorem absorbs_uint32 {number : Nat} {tagByte : Byte} (get : M → BitVec 32)
    (set : M → BitVec 32 → M)
    (hcase : cases.find? (FieldCase.handles · (makeTag number 0)) =
      some (varint32Case R number tagByte set))
    (hself : ∀ m, set m (get m) = m) (value : BitVec 32) :
    Absorbs R cases (writeUInt32 R number value) fun m => set m (merged 0 (get m) value) := by
  unfold writeUInt32 merged
  split
  · refine absorbs_case hcase ?_
    intro m rest
    simp only [varint32Case, R.readVarint32_uint32]
  · simp only [hself]
    exact absorbs_nil

theorem absorbs_bool {number : Nat} {tagByte : Byte} (get : M → Bool) (set : M → Bool → M)
    (hcase : cases.find? (FieldCase.handles · (makeTag number 0)) =
      some (boolCase R number tagByte set))
    (hself : ∀ m, set m (get m) = m) (value : Bool) :
    Absorbs R cases (writeBool R number value) fun m => set m (merged false (get m) value) := by
  cases value with
  | false =>
    intro m rest
    exact congrArg _ (hself m).symm
  | true =>
    refine absorbs_case hcase ?_
    intro m rest
    simp only [boolCase, R.readVarint64_bool]
    rfl

/-! Sizes; a tag of a small number is one byte. -/

theorem tagBytes_makeTag {number wireType : Nat} (hnumber : number < 16) (htype : wireType < 8) :
    R.tagBytes (makeTag number wireType) = [(makeTag number wireType).setWidth 8] := by
  refine R.tagBytes_short _ ?_
  rw [BitVec.lt_def, makeTag, BitVec.toNat_ofNat]
  have h128 : (128 : BitVec 32).toNat = 128 := rfl
  omega

theorem tagBytes_length {number wireType : Nat} (hnumber : number < 16) (htype : wireType < 8) :
    (R.tagBytes (makeTag number wireType)).length = 1 := by
  rw [tagBytes_makeTag hnumber htype]
  rfl

theorem writeInt32_length {number : Nat} (hnumber : number < 16) (value : BitVec 32) :
    (writeInt32 R number value).length = sizeInt32 R value := by
  unfold writeInt32 sizeInt32
  split
  · rw [List.length_append, tagBytes_length hnumber (by decide), R.int32Size_eq, Nat.add_comm]
  · rfl

theorem writeUInt32_length {number : Nat} (hnumber : number < 16) (value : BitVec 32) :
    (writeUInt32 R number value).length = sizeUInt32 R value := by
  unfold writeUInt32 sizeUInt32
  split
  · rw [List.length_append, tagBytes_length hnumber (by decide), R.uint32Size_eq, Nat.add_comm]
  · rfl

theorem writeBool_length {number : Nat} (hnumber : number < 16) (value : Bool) :
    (writeBool R number value).length = sizeBool value := by
  unfold writeBool sizeBool
  split
  · rw [List.length_append, tagBytes_length hnumber (by decide), R.bool_size]
  · rfl

theorem sizeInt32_le (value : BitVec 32) : sizeInt32 R value ≤ 11 := by
  have hsize := R.int32_size value
  rw [← R.int32Size_eq] at hsize
  unfold sizeInt32
  split <;> omega

theorem sizeUInt32_le (value : BitVec 32) : sizeUInt32 R value ≤ 6 := by
  have hsize := R.uint32_size value
  rw [← R.uint32Size_eq] at hsize
  unfold sizeUInt32
  split <;> omega

theorem sizeBool_le (value : Bool) : sizeBool value ≤ 2 := by
  cases value <;> decide

end Scalars

/-! ### Messages in messages -/

/-- A generated class whose messages stand in others: small enough for a one-byte length, and read
    as they were written. -/
structure SubMessage (R : Runtime) (S : Type v) where
  cleared : S
  internalParse : Bytes → S → S × Bool
  internalSerialize : S → Bytes
  byteSizeLong : S → Nat
  mergeFrom : S → S → S
  parse_serialize : ∀ s target,
    internalParse (internalSerialize s) target = (mergeFrom target s, true)
  merge_cleared : ∀ s, mergeFrom cleared s = s
  size_eq : ∀ s, (internalSerialize s).length = byteSizeLong s
  small : ∀ s, byteSizeLong s < 128

section Messages

variable {M : Type u} {S : Type v} (R : Runtime) (sub : SubMessage R S)

/-- `ctx->ParseMessage(s, ptr)`. -/
def parseMessage (bytes : Bytes) (s : S) : S × Option Bytes :=
  match R.readDelimited bytes with
  | none => (s, none)
  | some (body, rest) =>
    match sub.internalParse body s with
    | (s, true) => (s, some rest)
    | (s, false) => (s, none)

def writeMessage (number : Nat) (s : S) : Bytes :=
  R.tagBytes (makeTag number 2) ++
    (R.lengthBytes (sub.internalSerialize s).length ++ sub.internalSerialize s)

/-- `1 + MessageSize(s)`. -/
def sizeMessage (s : S) : Nat := 1 + (R.lengthSize (sub.byteSizeLong s) + sub.byteSizeLong s)

/-- A repeated field: `1UL * size()` and the `MessageSize` of each element. -/
def sizeMessages (items : List S) : Nat :=
  items.length +
    (items.map fun s => R.lengthSize (sub.byteSizeLong s) + sub.byteSizeLong s).sum

variable {R}

theorem parseMessage_le {bytes rest : Bytes} {s s' : S}
    (hparse : parseMessage R sub bytes s = (s', some rest)) : rest.length ≤ bytes.length := by
  unfold parseMessage at hparse
  split at hparse
  · cases hparse
  · rename_i body behind hcut
    split at hparse <;> cases hparse
    exact R.readDelimited_le _ _ _ hcut

theorem parseMessage_write (s target : S) (rest : Bytes) :
    parseMessage R sub
        ((R.lengthBytes (sub.internalSerialize s).length ++ sub.internalSerialize s) ++ rest)
        target =
      (sub.mergeFrom target s, some rest) := by
  have hsmall : (sub.internalSerialize s).length < 2 ^ 30 := by
    have hsize := sub.small s
    rw [sub.size_eq]
    omega
  unfold parseMessage
  rw [List.append_assoc, R.readDelimited_length _ _ hsmall]
  simp only [sub.parse_serialize]

theorem writeMessage_length {number : Nat} (hnumber : number < 16) (s : S) :
    (writeMessage R sub number s).length = sizeMessage R sub s := by
  rw [writeMessage, sizeMessage, List.length_append, List.length_append,
    tagBytes_length hnumber (by decide), sub.size_eq, R.lengthSize_eq]

theorem sizeMessage_eq (s : S) : sizeMessage R sub s = sub.byteSizeLong s + 2 := by
  rw [sizeMessage, R.lengthSize_eq, R.length_size _ (sub.small s)]
  omega

theorem writeMessages_length {number : Nat} (hnumber : number < 16) (items : List S) :
    (items.flatMap (writeMessage R sub number)).length = sizeMessages R sub items := by
  induction items with
  | nil => rfl
  | cons s items ih =>
    rw [List.flatMap_cons, List.length_append, ih, writeMessage_length sub hnumber, sizeMessage,
      sizeMessages, sizeMessages, List.length_cons, List.map_cons, List.sum_cons]
    omega

theorem sizeMessages_le {bound : Nat} (hbound : ∀ s, sub.byteSizeLong s ≤ bound)
    (items : List S) : sizeMessages R sub items ≤ (bound + 2) * items.length := by
  induction items with
  | nil => exact Nat.le_refl 0
  | cons s items ih =>
    have hsize := sizeMessage_eq (R := R) sub s
    have hs := hbound s
    rw [sizeMessage] at hsize
    rw [sizeMessages] at ih
    rw [sizeMessages, List.length_cons, List.map_cons, List.sum_cons, Nat.mul_succ]
    omega

theorem sizeMessages_replicate {s : S} {size : Nat} (hsize : sub.byteSizeLong s = size) (n : Nat) :
    sizeMessages R sub (List.replicate n s) = (size + 2) * n := by
  have hmessage := sizeMessage_eq (R := R) sub s
  rw [sizeMessage, hsize] at hmessage
  induction n with
  | zero => rfl
  | succ n ih =>
    rw [sizeMessages, List.length_replicate, List.map_replicate, hsize] at ih
    rw [sizeMessages, List.length_replicate, List.map_replicate, hsize, List.replicate_succ,
      List.sum_cons, Nat.mul_succ]
    omega

variable (R)

/-- A field with one message; `mutable_x` makes it where it is not there. -/
def messageCase (number : Nat) (tagByte : Byte) (get : M → Option S) (set : M → S → M) :
    FieldCase M where
  number := number
  tagByte := tagByte
  read := fun bytes m =>
    (set m (parseMessage R sub bytes ((get m).getD sub.cleared)).1,
      (parseMessage R sub bytes ((get m).getD sub.cleared)).2)
  read_le := by
    intro bytes m m' rest hread
    have hrest : (parseMessage R sub bytes ((get m).getD sub.cleared)).2 = some rest :=
      congrArg Prod.snd hread
    exact parseMessage_le sub (Prod.ext rfl hrest)

/-- A repeated field, one element at a time. -/
def elementCase (number : Nat) (tagByte : Byte) (add : M → S → M) : FieldCase M where
  number := number
  tagByte := tagByte
  read := fun bytes m =>
    (add m (parseMessage R sub bytes sub.cleared).1, (parseMessage R sub bytes sub.cleared).2)
  read_le := by
    intro bytes m m' rest hread
    have hrest : (parseMessage R sub bytes sub.cleared).2 = some rest := congrArg Prod.snd hread
    exact parseMessage_le sub (Prod.ext rfl hrest)

/-- The inner loop over a repeated field: on as long as the next byte is the tag. -/
def elementLoop (tagByte : Byte) (add : M → S → M) (bytes : Bytes) (m : M) : M × Option Bytes :=
  match _helement : parseMessage R sub bytes sub.cleared with
  | (s, none) => (add m s, none)
  | (s, some []) => (add m s, some [])
  | (s, some (next :: rest)) =>
    if next = tagByte then elementLoop tagByte add rest (add m s)
    else (add m s, some (next :: rest))
termination_by bytes.length
decreasing_by
  have hle := parseMessage_le sub _helement
  rw [List.length_cons] at hle
  omega

variable {R}

theorem elementLoop_le {tagByte : Byte} {add : M → S → M} {bytes rest : Bytes} {m m' : M}
    (hloop : elementLoop R sub tagByte add bytes m = (m', some rest)) :
    rest.length ≤ bytes.length := by
  induction hlen : bytes.length using Nat.strongRecOn generalizing bytes m with
  | ind n ih =>
    subst hlen
    rw [elementLoop] at hloop
    split at hloop
    · cases hloop
    · cases hloop
      exact Nat.zero_le _
    · rename_i s next more helement
      have hle := parseMessage_le sub helement
      rw [List.length_cons] at hle
      split at hloop
      · have hrest := ih more.length (by omega) hloop rfl
        omega
      · cases hloop
        exact hle

variable (R)

/-- A repeated field as generated. -/
def repeatedCase (number : Nat) (tagByte : Byte) (add : M → S → M) : FieldCase M where
  number := number
  tagByte := tagByte
  read := elementLoop R sub tagByte add
  read_le := fun _ _ _ _ hread => elementLoop_le sub hread

variable {R} {cases : List (FieldCase M)}

/-- Behind one round of the inner loop the parser may as well take the outer one. -/
theorem andThen_elementLoop {tagByte : Byte} {add : M → S → M} {tag : BitVec 32} {number : Nat}
    (hcase : cases.find? (FieldCase.handles · tag) = some (repeatedCase R sub number tagByte add))
    (htag : R.tagBytes tag = [tagByte]) (bytes : Bytes) (m : M) :
    andThen R cases (elementLoop R sub tagByte add bytes m) =
      andThen R cases ((elementCase R sub number tagByte add).read bytes m) := by
  rw [elementLoop]
  split
  · rename_i s helement
    simp only [elementCase, helement]
  · rename_i s helement
    simp only [elementCase, helement]
  · rename_i s next rest helement
    simp only [elementCase, helement]
    split
    · rename_i hnext
      have hround : internalParse R cases (R.tagBytes tag ++ rest) (add m s) = _ :=
        internalParse_tag tag rest (add m s)
      rw [parseField_tag, hcase] at hround
      have hbytes : R.tagBytes tag ++ rest = next :: rest := by
        rw [htag, hnext]
        rfl
      rw [hbytes] at hround
      exact hround.symm
    · rfl

theorem absorbs_message {number : Nat} {tagByte : Byte} {get : M → Option S} {set : M → S → M}
    (hcase : cases.find? (FieldCase.handles · (makeTag number 2)) =
      some (messageCase R sub number tagByte get set)) (s : S) :
    Absorbs R cases (writeMessage R sub number s)
      fun m => set m (sub.mergeFrom ((get m).getD sub.cleared) s) := by
  refine absorbs_case hcase ?_
  intro m rest
  simp only [messageCase, parseMessage_write]

theorem absorbs_element {number : Nat} {tagByte : Byte} {add : M → S → M}
    (hcase : cases.find? (FieldCase.handles · (makeTag number 2)) =
      some (repeatedCase R sub number tagByte add))
    (htag : R.tagBytes (makeTag number 2) = [tagByte]) (s : S) :
    Absorbs R cases (writeMessage R sub number s) fun m => add m s := by
  intro m rest
  rw [writeMessage, List.append_assoc, internalParse_tag, parseField_tag, hcase]
  refine (andThen_elementLoop sub hcase htag _ _).trans ?_
  simp only [elementCase, parseMessage_write, sub.merge_cleared, andThen]

variable (R)

/-- The pieces of a repeated field, and those of a field with at most one message. -/
def elementPieces (number : Nat) (add : M → S → M) (items : List S) : List (Piece M) :=
  items.map fun s => ⟨writeMessage R sub number s, fun m => add m s⟩

def messagePieces (number : Nat) (get : M → Option S) (set : M → S → M) :
    Option S → List (Piece M)
  | none => []
  | some s =>
    [⟨writeMessage R sub number s, fun m => set m (sub.mergeFrom ((get m).getD sub.cleared) s)⟩]

variable {R}

@[simp] theorem elementPieces_bytes (number : Nat) (add : M → S → M) (items : List S) :
    (elementPieces R sub number add items).flatMap Piece.bytes =
      items.flatMap (writeMessage R sub number) :=
  List.flatMap_map ..

@[simp] theorem applyAll_elementPieces (number : Nat) (add : M → S → M) (items : List S) (m : M) :
    Piece.applyAll (elementPieces R sub number add items) m = items.foldl add m :=
  List.foldl_map

theorem absorbsAll_elements {number : Nat} {tagByte : Byte} {add : M → S → M}
    (hcase : cases.find? (FieldCase.handles · (makeTag number 2)) =
      some (repeatedCase R sub number tagByte add))
    (htag : R.tagBytes (makeTag number 2) = [tagByte]) (items : List S) :
    AbsorbsAll R cases (elementPieces R sub number add items) := by
  intro piece hmem
  obtain ⟨s, _, rfl⟩ := List.mem_map.mp hmem
  exact absorbs_element sub hcase htag s

theorem absorbsAll_message {number : Nat} {tagByte : Byte} {get : M → Option S}
    {set : M → S → M}
    (hcase : cases.find? (FieldCase.handles · (makeTag number 2)) =
      some (messageCase R sub number tagByte get set)) (host : Option S) :
    AbsorbsAll R cases (messagePieces R sub number get set host) := by
  cases host with
  | none => exact absorbsAll_nil
  | some s => exact absorbsAll_cons.mpr ⟨absorbs_message sub hcase s, absorbsAll_nil⟩

/-! ### The inner loop is the outer one -/

/-- The same cases, but for one repeated field that the outer loop takes an element at a time. -/
def Unrolled (plain : List (FieldCase M)) (cases : List (FieldCase M)) (number : Nat)
    (tagByte : Byte) (add : M → S → M) : Prop :=
  ∀ tag, plain.find? (FieldCase.handles · tag) = cases.find? (FieldCase.handles · tag) ∨
    cases.find? (FieldCase.handles · tag) = some (repeatedCase R sub number tagByte add) ∧
      plain.find? (FieldCase.handles · tag) = some (elementCase R sub number tagByte add)

theorem Unrolled.intro {number : Nat} {tagByte : Byte} {add : M → S → M}
    (before after : List (FieldCase M)) :
    Unrolled sub (before ++ elementCase R sub number tagByte add :: after)
      (before ++ repeatedCase R sub number tagByte add :: after) number tagByte add := by
  intro tag
  induction before with
  | nil =>
    rw [List.nil_append, List.nil_append, List.find?_cons, List.find?_cons]
    cases htag : FieldCase.handles (repeatedCase R sub number tagByte add) tag with
    | true =>
      have htag' : FieldCase.handles (elementCase R sub number tagByte add) tag = true := htag
      rw [htag']
      exact Or.inr ⟨rfl, rfl⟩
    | false =>
      have htag' : FieldCase.handles (elementCase R sub number tagByte add) tag = false := htag
      rw [htag']
      exact Or.inl rfl
  | cons c before ih =>
    rw [List.cons_append, List.cons_append, List.find?_cons, List.find?_cons]
    cases FieldCase.handles c tag with
    | true => exact Or.inl rfl
    | false => exact ih

/-- **The inner loop makes no difference**, whatever the input is. -/
theorem internalParse_unrolled {plain : List (FieldCase M)} {number : Nat} {tagByte : Byte}
    {add : M → S → M} (hunrolled : Unrolled sub plain cases number tagByte add)
    (hcase : cases.find? (FieldCase.handles · (makeTag number 2)) =
      some (repeatedCase R sub number tagByte add))
    (htag : R.tagBytes (makeTag number 2) = [tagByte]) (bytes : Bytes) (m : M) :
    internalParse R cases bytes m = internalParse R plain bytes m := by
  induction hlen : bytes.length using Nat.strongRecOn generalizing bytes m with
  | ind n ih =>
    subst hlen
    by_cases hnil : bytes = []
    · rw [hnil, internalParse_nil, internalParse_nil]
    · -- the same field, or the first element of the loop
      have hfield : andThen R cases (parseField R cases bytes m) =
          andThen R cases (parseField R plain bytes m) := by
        unfold parseField
        split
        · rfl
        · rename_i tag rest _
          rcases hunrolled tag with hsame | ⟨hloop, helement⟩
          · rw [hsame]
          · rw [hloop, helement]
            exact andThen_elementLoop sub hcase htag rest m
      rw [internalParse_field hnil, internalParse_field hnil, hfield]
      cases hplain : parseField R plain bytes m with
      | mk m' behind =>
        cases behind with
        | none => rfl
        | some rest => exact ih rest.length (parseField_lt hplain) rest m' rfl

end Messages

/-! ## Generated classes -/

/-- A generated class: its functions, and its fields as the pieces in which it is written. -/
structure MessageClass (R : Runtime) (M : Type u) where
  cleared : M
  cases : List (FieldCase M)
  pieces : M → List (Piece M)
  internalSerialize : M → Bytes
  byteSizeLong : M → Nat
  mergeFrom : M → M → M
  absorbs : ∀ m, AbsorbsAll R cases (pieces m)
  serialize_eq : ∀ m, internalSerialize m = (pieces m).flatMap Piece.bytes
  apply_eq : ∀ m target, Piece.applyAll (pieces m) target = mergeFrom target m
  merge_cleared : ∀ m, mergeFrom cleared m = m
  size_eq : ∀ m, (internalSerialize m).length = byteSizeLong m

namespace MessageClass

variable {M : Type u} {R : Runtime} (c : MessageClass R M)

/-- `ParseFromArray`: a cleared message is parsed into. -/
def parseFromArray (bytes : Bytes) : M × Bool := WireFormat.internalParse R c.cases bytes c.cleared

theorem interleaved_serialize (m : M) :
    Interleaved R c.cases (c.pieces m) (c.internalSerialize m) := by
  rw [c.serialize_eq]
  exact interleaved_plain _

/-- **Parsing a serialized message merges it**, whatever follows. -/
theorem absorbs_serialize (m : M) :
    Absorbs R c.cases (c.internalSerialize m) fun target => c.mergeFrom target m := by
  intro target rest
  rw [(c.absorbs m).interleaved (c.interleaved_serialize m), c.apply_eq]

theorem parse_interleaved {m : M} {bytes : Bytes}
    (hbytes : Interleaved R c.cases (c.pieces m) bytes) : c.parseFromArray bytes = (m, true) := by
  rw [parseFromArray, ((c.absorbs m).interleaved hbytes).parse, c.apply_eq, c.merge_cleared]

/-- A small class, for use in others. -/
def sub (small : ∀ m, c.byteSizeLong m < 128) : SubMessage R M where
  cleared := c.cleared
  internalParse := WireFormat.internalParse R c.cases
  internalSerialize := c.internalSerialize
  byteSizeLong := c.byteSizeLong
  mergeFrom := c.mergeFrom
  parse_serialize s target := (c.absorbs_serialize s).parse target
  merge_cleared := c.merge_cleared
  size_eq := c.size_eq
  small := small

end MessageClass

end LarsSystem.WireFormat
