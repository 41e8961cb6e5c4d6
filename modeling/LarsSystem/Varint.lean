import LarsSystem.WireFormat

/-!
# Base-128 varints, and a runtime made of them

A number is written in groups of seven bits, lowest first, and every byte but the
last has its high bit set. Tags, lengths and scalars are such numbers; an `int32`
is extended to 64 bits before. `Runtime.base128` is the runtime that this gives.
-/

namespace LarsSystem.WireFormat

open LarsSystem.MachineWord

/-- At most `more + 1` groups; the last one takes what is left. -/
def varintBytes : Nat → Nat → Bytes
  | 0, n => [BitVec.ofNat 8 n]
  | more + 1, n =>
    if n < 128 then [BitVec.ofNat 8 n]
    else BitVec.ofNat 8 (n % 128 + 128) :: varintBytes more (n / 128)

/-- A varint of at most `limit` bytes. -/
def readVarint : Nat → Bytes → Option (Nat × Bytes)
  | 0, _ => none
  | _ + 1, [] => none
  | limit + 1, b :: rest =>
    if b.toNat < 128 then some (b.toNat, rest)
    else (readVarint limit rest).map fun (n, rest) => (b.toNat - 128 + 128 * n, rest)

theorem varintBytes_short (more : Nat) {n : Nat} (hsmall : n < 128) :
    varintBytes more n = [BitVec.ofNat 8 n] := by
  cases more with
  | zero => rfl
  | succ more => rw [varintBytes, if_pos hsmall]

theorem readVarint_short {n : Nat} (hsmall : n < 128) (limit : Nat) (rest : Bytes) :
    readVarint (limit + 1) (BitVec.ofNat 8 n :: rest) = some (n, rest) := by
  have hbyte : (BitVec.ofNat 8 n).toNat = n := by
    rw [BitVec.toNat_ofNat]
    omega
  rw [readVarint, hbyte, if_pos hsmall]

theorem readVarint_varintBytes {more n : Nat} (hsize : n < 128 ^ (more + 1)) {limit : Nat}
    (hlimit : more < limit) (rest : Bytes) :
    readVarint limit (varintBytes more n ++ rest) = some (n, rest) := by
  obtain ⟨limit, rfl⟩ : ∃ k, limit = k + 1 := ⟨limit - 1, by omega⟩
  induction more generalizing n limit with
  | zero => exact readVarint_short (by omega) limit rest
  | succ more ih =>
    rw [varintBytes]
    split
    · rename_i hsmall
      exact readVarint_short hsmall limit rest
    · have hbyte : (BitVec.ofNat 8 (n % 128 + 128)).toNat = n % 128 + 128 := by
        rw [BitVec.toNat_ofNat]
        omega
      have hrest : n / 128 < 128 ^ (more + 1) := by
        rw [pow_succ] at hsize
        exact Nat.div_lt_of_lt_mul (by omega)
      have hsum : n % 128 + 128 * (n / 128) = n := Nat.mod_add_div n 128
      obtain ⟨limit, rfl⟩ : ∃ k, limit = k + 1 := ⟨limit - 1, by omega⟩
      rw [List.cons_append, readVarint, hbyte, if_neg (by omega), ih hrest limit (by omega),
        Option.map_some]
      simp only [Nat.add_sub_cancel, hsum]

theorem readVarint_lt {limit n : Nat} {bytes rest : Bytes}
    (hread : readVarint limit bytes = some (n, rest)) : rest.length < bytes.length := by
  induction limit generalizing bytes n with
  | zero => cases hread
  | succ limit ih =>
    cases bytes with
    | nil => cases hread
    | cons b bytes =>
      rw [readVarint] at hread
      rw [List.length_cons]
      split at hread
      · cases hread
        exact Nat.lt_succ_self _
      · obtain ⟨⟨m, behind⟩, hmore, heq⟩ := Option.map_eq_some_iff.mp hread
        cases heq
        exact Nat.lt_succ_of_lt (ih hmore)

theorem varintBytes_length_le (more n : Nat) : (varintBytes more n).length ≤ more + 1 := by
  induction more generalizing n with
  | zero => exact Nat.le_refl 1
  | succ more ih =>
    rw [varintBytes]
    split
    · exact Nat.succ_le_succ (Nat.zero_le _)
    · exact Nat.succ_le_succ (ih (n / 128))

/-! ## What stands behind a tag -/

def cutDelimited (bytes : Bytes) : Option (Bytes × Bytes) :=
  match readVarint 5 bytes with
  | none => none
  | some (n, rest) =>
    if n < 2 ^ 30 ∧ n ≤ rest.length then some (rest.take n, rest.drop n) else none

mutual
/-- The payload of a field; `fuel` bounds how deep groups are nested and how long they are. -/
def skipField : Nat → Nat → Bytes → Option Bytes
  | 0, _, _ => none
  | fuel + 1, tag, bytes =>
    if tag / 8 = 0 then none
    else
      match tag % 8 with
      | 0 => (readVarint 10 bytes).map Prod.snd
      | 1 => if 8 ≤ bytes.length then some (bytes.drop 8) else none
      | 2 => (cutDelimited bytes).map Prod.snd
      | 3 => skipGroup fuel (tag / 8) bytes
      | 5 => if 4 ≤ bytes.length then some (bytes.drop 4) else none
      | _ => none
/-- The fields of a group, up to its end. -/
def skipGroup : Nat → Nat → Bytes → Option Bytes
  | 0, _, _ => none
  | fuel + 1, number, bytes =>
    match readVarint 5 bytes with
    | none => none
    | some (tag, rest) =>
      if tag % 8 = 4 then if tag / 8 = number then some rest else none
      else
        match skipField fuel tag rest with
        | none => none
        | some rest => skipGroup fuel number rest
end

theorem cutDelimited_le {bytes body rest : Bytes} (hcut : cutDelimited bytes = some (body, rest)) :
    rest.length ≤ bytes.length := by
  unfold cutDelimited at hcut
  split at hcut
  · cases hcut
  · rename_i n behind hread
    have hlt := readVarint_lt hread
    split at hcut
    · cases hcut
      rw [List.length_drop]
      omega
    · cases hcut

theorem skip_le (fuel : Nat) :
    (∀ tag bytes rest, skipField fuel tag bytes = some rest → rest.length ≤ bytes.length) ∧
      ∀ number bytes rest, skipGroup fuel number bytes = some rest →
        rest.length ≤ bytes.length := by
  induction fuel with
  | zero =>
    refine ⟨?_, ?_⟩
    · intro tag bytes rest hskip
      cases hskip
    · intro number bytes rest hskip
      cases hskip
  | succ fuel ih =>
    obtain ⟨ihField, ihGroup⟩ := ih
    refine ⟨?_, ?_⟩
    · intro tag bytes rest hskip
      rw [skipField] at hskip
      split at hskip
      · cases hskip
      · split at hskip
        · obtain ⟨⟨n, behind⟩, hread, rfl⟩ := Option.map_eq_some_iff.mp hskip
          exact Nat.le_of_lt (readVarint_lt hread)
        · split at hskip <;> cases hskip
          rw [List.length_drop]
          omega
        · obtain ⟨⟨body, behind⟩, hcut, rfl⟩ := Option.map_eq_some_iff.mp hskip
          exact cutDelimited_le hcut
        · exact ihGroup _ _ _ hskip
        · split at hskip <;> cases hskip
          rw [List.length_drop]
          omega
        · cases hskip
    · intro number bytes rest hskip
      rw [skipGroup] at hskip
      split at hskip
      · cases hskip
      · rename_i tag behind hread
        have hlt := readVarint_lt hread
        split at hskip
        · split at hskip <;> cases hskip
          exact Nat.le_of_lt hlt
        · split at hskip
          · cases hskip
          · rename_i more hfield
            have hle := ihField _ _ _ hfield
            have hle' := ihGroup _ _ _ hskip
            omega

/-! ## The runtime -/

/-- A reader that takes a varint of at most `limit` bytes as a word. -/
def readWord (width limit : Nat) (bytes : Bytes) : BitVec width × Option Bytes :=
  match readVarint limit bytes with
  | none => (0, none)
  | some (n, rest) => (BitVec.ofNat width n, some rest)

theorem readWord_varintBytes {width more n : Nat} (hsize : n < 128 ^ (more + 1)) {limit : Nat}
    (hlimit : more < limit) (rest : Bytes) :
    readWord width limit (varintBytes more n ++ rest) = (BitVec.ofNat width n, some rest) := by
  rw [readWord, readVarint_varintBytes hsize hlimit]

theorem readWord_lt {width limit : Nat} {bytes rest : Bytes} {value : BitVec width}
    (hread : readWord width limit bytes = (value, some rest)) : rest.length < bytes.length := by
  unfold readWord at hread
  split at hread
  · cases hread
  · rename_i n behind hvarint
    cases hread
    exact readVarint_lt hvarint

theorem signExtend_lt (value : BitVec 32) : (value.signExtend 64).toNat < 128 ^ 10 := by
  have hlt := (value.signExtend 64).isLt
  omega

theorem ofNat_signExtend (value : BitVec 32) :
    BitVec.ofNat 32 (value.signExtend 64).toNat = value := by
  apply BitVec.eq_of_toNat_eq
  have hlt := value.isLt
  rw [BitVec.toNat_ofNat, BitVec.toNat_signExtend, BitVec.toNat_setWidth]
  split <;> omega

def Runtime.base128 : Runtime where
  readTag := readWord 32 5
  readVarint32 := readWord 32 10
  readVarint64 := readWord 64 10
  readDelimited := cutDelimited
  unknownFieldParse tag bytes := skipField (bytes.length + 1) tag.toNat bytes
  tagBytes tag := varintBytes 4 tag.toNat
  int32Bytes value := varintBytes 9 (value.signExtend 64).toNat
  uint32Bytes value := varintBytes 4 value.toNat
  boolBytes value := varintBytes 0 value.toNat
  lengthBytes := varintBytes 4
  int32Size value := (varintBytes 9 (value.signExtend 64).toNat).length
  uint32Size value := (varintBytes 4 value.toNat).length
  lengthSize n := (varintBytes 4 n).length
  readTag_tagBytes tag rest := by
    have hlt := tag.isLt
    rw [readWord_varintBytes (by omega) (by decide), BitVec.ofNat_toNat, BitVec.setWidth_eq]
  readVarint32_int32 value rest := by
    rw [readWord_varintBytes (signExtend_lt value) (by decide), ofNat_signExtend]
  readVarint32_uint32 value rest := by
    have hlt := value.isLt
    rw [readWord_varintBytes (by omega) (by decide), BitVec.ofNat_toNat, BitVec.setWidth_eq]
  readVarint64_bool value rest := by
    cases value <;> rw [readWord_varintBytes (by decide) (by decide)] <;> rfl
  readDelimited_length body rest hbody := by
    unfold cutDelimited
    rw [readVarint_varintBytes (by omega) (by decide)]
    simp only
    rw [if_pos ⟨hbody, by rw [List.length_append]; omega⟩, List.take_left', List.drop_left'] <;> rfl
  readTag_lt _ _ _ hread := readWord_lt hread
  readVarint32_le _ _ _ hread := Nat.le_of_lt (readWord_lt hread)
  readVarint64_le _ _ _ hread := Nat.le_of_lt (readWord_lt hread)
  readDelimited_le _ _ _ hcut := cutDelimited_le hcut
  unknownFieldParse_le tag bytes rest hskip := (skip_le _).1 _ _ _ hskip
  tagBytes_short tag hshort := by
    have hlt : tag.toNat < 128 := hshort
    rw [varintBytes_short 4 hlt]
    rfl
  int32Size_eq _ := rfl
  uint32Size_eq _ := rfl
  lengthSize_eq _ := rfl
  int32_size _ := varintBytes_length_le 9 _
  uint32_size _ := varintBytes_length_le 4 _
  bool_size _ := rfl
  length_size n hsmall := by
    rw [varintBytes_short 4 hsmall]
    rfl

end LarsSystem.WireFormat
