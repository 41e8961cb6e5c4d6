import Mathlib.Algebra.Group.Int.Defs
import Mathlib.Algebra.Group.Nat.Defs
import Mathlib.Data.List.Basic

/-!
# Machine words: bytes of a 32-bit word and pairs in a 64-bit key

Two representations the code relies on. `memcpy` of a C `int` moves its four
bytes, least significant first. A pair of `int`s is packed into a 64-bit key by
`((uint64_t)high << 32) + low`: both operands are sign extended, so a negative
low half borrows one from the high half. Packing is injective all the same, and
`unpackHigh` undoes it exactly when the low half is not negative. Signed 32-bit
arithmetic wraps (`wrap32`), as on the machine.
-/

namespace LarsSystem.MachineWord

abbrev Byte := BitVec 8

/-- A C `int` by its bit pattern. -/
abbrev CInt := BitVec 32

def wrap32 (value : Int) : Int := value.bmod (2 ^ 32)

theorem wrap32_of_lt {value : Int} (hlow : 0 ≤ value) (hhigh : value < 2 ^ 31) :
    wrap32 value = value := by
  unfold wrap32
  rw [Int.bmod_eq_of_le_mul_two] <;> omega

theorem wrap32_of_ge {value : Int} (hlow : 2 ^ 31 ≤ value) (hhigh : value < 2 ^ 32) :
    wrap32 value = value - 2 ^ 32 := by
  have hshift : value = (value - 2 ^ 32) + ((2 ^ 32 : Nat) : Int) := by omega
  unfold wrap32
  conv => lhs; rw [hshift]
  rw [Int.add_bmod_right, Int.bmod_eq_of_le_mul_two] <;> omega

/-! ## Little-endian bytes -/

def le32 (word : CInt) : List Byte :=
  [word.extractLsb' 0 8, word.extractLsb' 8 8, word.extractLsb' 16 8, word.extractLsb' 24 8]

def ofLe32 (bytes : List Byte) : CInt :=
  bytes.getD 3 0 ++ bytes.getD 2 0 ++ bytes.getD 1 0 ++ bytes.getD 0 0

@[simp] theorem le32_length (word : CInt) : (le32 word).length = 4 := rfl

theorem ofLe32_append (word : CInt) (more : List Byte) : ofLe32 (le32 word ++ more) = word := by
  apply BitVec.eq_of_getLsbD_eq
  intro i hi
  simp only [ofLe32, le32, List.cons_append, List.getD_cons_succ, List.getD_cons_zero,
    BitVec.getLsbD_append, BitVec.getLsbD_extractLsb']
  grind

theorem le32_ofLe32 {bytes : List Byte} (hlen : bytes.length = 4) :
    le32 (ofLe32 bytes) = bytes := by
  match bytes, hlen with
  | [b0, b1, b2, b3], _ =>
    simp only [le32, ofLe32, List.getD_cons_succ, List.getD_cons_zero, List.cons.injEq,
      and_true]
    refine ⟨?_, ?_, ?_, ?_⟩ <;>
    · apply BitVec.eq_of_getLsbD_eq
      intro i hi
      simp only [BitVec.getLsbD_extractLsb', BitVec.getLsbD_append]
      grind

/-! ## Packed pairs

`pack` is `((uint64_t)high << 32) + low` for two C `int`s, `unpackHigh` is
`(int)(key >> 32)` and `unpackLow` is `(int)key`. The low half survives packing;
the high half of a pair with a negative low half comes back one too small. -/

def pack (high low : CInt) : BitVec 64 := high.signExtend 64 <<< 32 + low.signExtend 64

def unpackHigh (key : BitVec 64) : CInt := (key >>> 32).setWidth 32

def unpackLow (key : BitVec 64) : CInt := key.setWidth 32

theorem unpackHigh_toNat (key : BitVec 64) : (unpackHigh key).toNat = key.toNat / 2 ^ 32 := by
  have hkey := key.isLt
  rw [unpackHigh, BitVec.toNat_setWidth, BitVec.toNat_ushiftRight, Nat.shiftRight_eq_div_pow]
  omega

theorem unpackLow_toNat (key : BitVec 64) : (unpackLow key).toNat = key.toNat % 2 ^ 32 := by
  rw [unpackLow, BitVec.toNat_setWidth]

theorem pack_toNat (high low : CInt) :
    (pack high low).toNat =
      (high.toNat * 2 ^ 32 + low.toNat + if low.msb then 2 ^ 64 - 2 ^ 32 else 0) % 2 ^ 64 := by
  have hhigh : (high.signExtend 64 <<< 32).toNat = high.toNat * 2 ^ 32 := by
    have := high.isLt
    rw [BitVec.toNat_shiftLeft, BitVec.toNat_signExtend, BitVec.toNat_setWidth,
      Nat.shiftLeft_eq]
    split <;> omega
  rw [pack, BitVec.toNat_add, hhigh, BitVec.toNat_signExtend, BitVec.toNat_setWidth,
    Nat.mod_eq_of_lt (a := low.toNat) (by have := low.isLt; omega), Nat.add_assoc]

@[simp] theorem unpackLow_pack (high low : CInt) : unpackLow (pack high low) = low := by
  apply BitVec.eq_of_toNat_eq
  have hlow := low.isLt
  rw [unpackLow_toNat, pack_toNat]
  split <;> omega

theorem unpackHigh_pack (high low : CInt) :
    unpackHigh (pack high low) = if low.msb then high - 1 else high := by
  apply BitVec.eq_of_toNat_eq
  have hlow := low.isLt
  have hhigh := high.isLt
  rw [unpackHigh_toNat, pack_toNat]
  split
  · have hone : (1 : CInt).toNat = 1 := rfl
    rw [BitVec.toNat_sub, hone]
    omega
  · omega

theorem sub_one_ne (word : CInt) : word - 1 ≠ word := by bv_omega

/-- **Different pairs have different keys**, negative values included. -/
theorem pack_inj {high low high' low' : CInt} :
    pack high low = pack high' low' ↔ high = high' ∧ low = low' := by
  refine ⟨fun heq => ?_, fun h => by rw [h.1, h.2]⟩
  have hlow : low = low' := by simpa using congrArg unpackLow heq
  subst hlow
  have hhigh := congrArg unpackHigh heq
  rw [unpackHigh_pack, unpackHigh_pack] at hhigh
  split at hhigh
  · exact ⟨by simpa using hhigh, rfl⟩
  · exact ⟨hhigh, rfl⟩

/-- A key is the pack of its unpacked halves exactly when its low half is not
    negative. -/
theorem pack_unpack_iff (key : BitVec 64) :
    pack (unpackHigh key) (unpackLow key) = key ↔ (unpackLow key).msb = false := by
  have hkey := key.isLt
  rw [← BitVec.toNat_inj, pack_toNat, unpackHigh_toNat, unpackLow_toNat]
  cases hneg : (unpackLow key).msb with
  | false =>
    simp only [Bool.false_eq_true, if_false, iff_true]
    omega
  | true =>
    simp only [if_true, Bool.true_eq_false, iff_false]
    omega

end LarsSystem.MachineWord
