import Mathlib.Data.Nat.Bitwise
import Mathlib.Data.Nat.Notation
import VitaDebugger.Bytes

/-! Little-endian words in byte strings. Reading past the end of the bytes gives zeros. -/

namespace VitaDebugger.LittleEndian
open Nat

def byteAt (input : Bytes) (offset : ℕ) : UInt8 := input.getD offset 0

/-- The number that `width` bytes from `offset` on hold, the lowest byte first. -/
def number (input : Bytes) (offset : ℕ) : ℕ → ℕ
  | 0 => 0
  | width + 1 => (byteAt input offset).toNat + 256 * number input (offset + 1) width

def writeU16Le (value : UInt16) : Bytes := [value.toUInt8, (value >>> 8).toUInt8]

def writeU32Le (value : UInt32) : Bytes :=
  [value.toUInt8, (value >>> 8).toUInt8, (value >>> 16).toUInt8, (value >>> 24).toUInt8]

def writeU64Le (value : UInt64) : Bytes :=
  writeU32Le value.toUInt32 ++ writeU32Le (value >>> 32).toUInt32

def readU16Le (input : Bytes) (offset : ℕ) : UInt16 :=
  (byteAt input offset).toUInt16 ||| (byteAt input (offset + 1)).toUInt16 <<< 8

def readU32Le (input : Bytes) (offset : ℕ) : UInt32 :=
  (byteAt input offset).toUInt32 ||| (byteAt input (offset + 1)).toUInt32 <<< 8 |||
    (byteAt input (offset + 2)).toUInt32 <<< 16 ||| (byteAt input (offset + 3)).toUInt32 <<< 24

def readU64Le (input : Bytes) (offset : ℕ) : UInt64 :=
  (readU32Le input offset).toUInt64 ||| (readU32Le input (offset + 4)).toUInt64 <<< 32

theorem or_shift {low high k size : ℕ} (hs : low < 2 ^ k) (hf : 2 ^ k * high < size) :
    low ||| high <<< k % size = low + 2 ^ k * high := by
  rw [shiftLeft_eq, mul_comm high, mod_eq_of_lt hf, mul_comm, ← shiftLeft_eq,
    lor_comm, ← shiftLeft_add_eq_or_of_lt hs, shiftLeft_eq, mul_comm,
    add_comm]

variable (i : Bytes)

theorem number_lt (offset width : ℕ) : number i offset width < 256 ^ width := by
  induction width generalizing offset with
  | zero => exact Nat.one_pos
  | succ width ih =>
    have hb := (byteAt i offset).toNat_lt
    have hr := ih (offset + 1)
    rw [number, pow_succ]
    omega

theorem toNat_readU16Le (offset : ℕ) : (readU16Le i offset).toNat = number i offset 2 := by
  have low := (byteAt i offset).toNat_lt
  have hh := (byteAt i (offset + 1)).toNat_lt
  simp only [readU16Le, number, UInt16.toNat_or, UInt16.toNat_shiftLeft, UInt8.toNat_toUInt16]
  change _ ||| _ <<< 8 % _ = _
  rw [or_shift low (by omega)]
  omega

theorem toNat_readU32Le (offset : ℕ) : (readU32Le i offset).toNat = number i offset 4 := by
  have hf := (byteAt i offset).toNat_lt
  have hs := (byteAt i (offset + 1)).toNat_lt
  have ht := (byteAt i (offset + 2)).toNat_lt
  have hfo := (byteAt i (offset + 3)).toNat_lt
  simp only [readU32Le, number, UInt32.toNat_or, UInt32.toNat_shiftLeft, UInt8.toNat_toUInt32,
    add_assoc, reduceAdd]
  change _ ||| _ <<< 8 % _ ||| _ <<< 16 % _ ||| _ <<< 24 % _ = _
  rw [or_shift hf (by omega), or_shift (k := 16) (by omega) (by omega),
    or_shift (k := 24) (by omega) (by omega)]
  omega

theorem number_add (offset low high : ℕ) : number i offset (low + high) =
      number i offset low + 256 ^ low * number i (offset + low) high := by
  induction low generalizing offset with
  | zero => simp [number]
  | succ low ih =>
    rw [succ_add, number, ih, number, pow_succ, add_assoc offset, add_comm 1,
      mul_add, add_assoc, ← mul_assoc, mul_comm 256 (256 ^ low)]

theorem toNat_readU64Le (offset : ℕ) : (readU64Le i offset).toNat = number i offset 8 := by
  have low : (readU32Le i offset).toNat < 2 ^ 32 := UInt32.toNat_lt _
  have hh : (readU32Le i (offset + 4)).toNat < 2 ^ 32 := UInt32.toNat_lt _
  simp only [readU64Le, UInt64.toNat_or, UInt64.toNat_shiftLeft, UInt32.toNat_toUInt64]
  change _ ||| _ <<< 32 % _ = _
  rw [or_shift low (by omega), toNat_readU32Le, toNat_readU32Le, number_add i offset 4 4]
  rfl

theorem byteAt_append_right (first second : Bytes) (offset : ℕ) :
    byteAt (first ++ second) (first.length + offset) = byteAt second offset := by
  unfold byteAt
  rw [List.getD_append_right _ _ _ _ (Nat.le_add_right _ _), Nat.add_sub_cancel_left]

variable {f s : Bytes} {o : ℕ}

section
variable (le : f.length ≤ o)
include le

theorem byteAt_skip : byteAt (f ++ s) o = byteAt s (o - f.length) := by
  have hs := byteAt_append_right f s (o - f.length)
  rwa [Nat.add_sub_cancel' le] at hs

@[simp]
theorem readU16Le_skip : readU16Le (f ++ s) o = readU16Le s (o - f.length) := by
  simp only [readU16Le, byteAt_skip le, byteAt_skip (Nat.le_add_right_of_le le),
    Nat.sub_add_comm le]

@[simp]
theorem readU32Le_skip : readU32Le (f ++ s) o = readU32Le s (o - f.length) := by
  simp only [readU32Le, byteAt_skip le, byteAt_skip (Nat.le_add_right_of_le le),
    Nat.sub_add_comm le]

@[simp]
theorem readU64Le_skip : readU64Le (f ++ s) o = readU64Le s (o - f.length) := by
  simp only [readU64Le, readU32Le_skip le, readU32Le_skip (Nat.le_add_right_of_le le),
    Nat.sub_add_comm le]

end

@[simp]
theorem length_writeU16Le (v : UInt16) : (writeU16Le v).length = 2 := by
  simp [writeU16Le]

@[simp]
theorem length_writeU32Le (v : UInt32) : (writeU32Le v).length = 4 := by
  simp [writeU32Le]

@[simp]
theorem length_writeU64Le (v : UInt64) : (writeU64Le v).length = 8 := by
  simp [writeU64Le]

@[simp]
theorem readU16Le_writeU16Le (value : UInt16) (rest : Bytes) :
    readU16Le (writeU16Le value ++ rest) 0 = value := by
  have hs := value.toNat_lt
  apply UInt16.toNat_inj.mp
  rw [toNat_readU16Le]
  simp [number, writeU16Le, byteAt, shiftRight_eq_div_pow]
  omega

@[simp]
theorem readU32Le_writeU32Le (value : UInt32) (rest : Bytes) :
    readU32Le (writeU32Le value ++ rest) 0 = value := by
  have hs := value.toNat_lt
  apply UInt32.toNat_inj.mp
  rw [toNat_readU32Le]
  simp [number, writeU32Le, byteAt, shiftRight_eq_div_pow]
  omega

@[simp]
theorem readU64Le_writeU64Le (value : UInt64) (r : Bytes) :
    readU64Le (writeU64Le value ++ r) 0 = value := by
  have hs := value.toNat_lt
  have low : readU32Le (writeU64Le value ++ r) 0 = value.toUInt32 := readU32Le_writeU32Le _ _
  have hh : readU32Le (writeU64Le value ++ r) 4 = (value >>> 32).toUInt32 :=
    readU32Le_writeU32Le (value >>> 32).toUInt32 r
  apply UInt64.toNat_inj.mp
  rw [readU64Le, low, hh, UInt64.toNat_or, UInt64.toNat_shiftLeft]
  simp only [UInt32.toNat_toUInt64, UInt64.toNat_toUInt32, UInt64.toNat_shiftRight,
    shiftRight_eq_div_pow]
  change _ ||| (_ / 2 ^ 32 % _) <<< 32 % _ = _
  rw [or_shift (by omega) (by omega)]
  omega

@[simp]
theorem readU64Le_last (value : UInt64) : readU64Le (writeU64Le value) 0 = value := by
  have hr := readU64Le_writeU64Le value []
  rwa [List.append_nil] at hr

end VitaDebugger.LittleEndian
