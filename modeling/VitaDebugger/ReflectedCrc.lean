import Mathlib.Logic.Function.Iterate
import Mathlib.Algebra.Group.Nat.Defs
import VitaDebugger.Bytes

/-! Reflected 32-bit checksums. Division by the polynomial bit by bit and byte by byte from
a table of 256 words give the same remainders, since a step is linear in exclusive or. -/

namespace VitaDebugger.ReflectedCrc
open Nat UInt32

/-- One bit of the division. -/
def bitStep (polynomial crc : UInt32) : UInt32 := (crc >>> 1) ^^^ (polynomial &&& (0 - (crc &&& 1)))

def byteStep (polynomial crc : UInt32) (byte : UInt8) : UInt32 :=
  (bitStep polynomial)^[8] (crc ^^^ byte.toUInt32)

def tableEntry (polynomial : UInt32) (octet : ℕ) : UInt32 := (bitStep polynomial)^[8] (.ofNat octet)

def table (polynomial : UInt32) : List UInt32 := (List.range 256).map (tableEntry polynomial)

/-- A byte of the division by table. -/
def tableStep (table : List UInt32) (crc : UInt32) (byte : UInt8) : UInt32 :=
  table.getD ((crc ^^^ byte.toUInt32) &&& 0xff).toNat 0 ^^^ (crc >>> 8)

theorem low_bit (crc : UInt32) : crc &&& 1 = 0 ∨ crc &&& 1 = 1 := by
  have bit : (crc &&& 1).toNat = crc.toNat % 2 := by
    exact and_one_is_mod _
  rcases mod_two_eq_zero_or_one crc.toNat with he | odd
  · exact .inl (UInt32.toNat_inj.mp (bit.trans he))
  · exact .inr (UInt32.toNat_inj.mp (bit.trans odd))

theorem and_xor (mask f s : UInt32) : mask &&& (f ^^^ s) = (mask &&& f) ^^^ (mask &&& s) := by
  apply UInt32.toNat_inj.mp
  rw [UInt32.toNat_and, UInt32.toNat_xor, and_xor_distrib_left, UInt32.toNat_xor,
    UInt32.toNat_and, UInt32.toNat_and]

variable (p : UInt32)

theorem bitStep_xor (f s : UInt32) : bitStep p (f ^^^ s) =
      bitStep p f ^^^ bitStep p s := by
  have hj : (f ^^^ s) &&& 1 = (f &&& 1) ^^^ (s &&& 1) := by
    rw [UInt32.and_comm, and_xor, UInt32.and_comm 1, UInt32.and_comm 1]
  have hm : 0 - ((f &&& 1) ^^^ (s &&& 1)) = (0 - (f &&& 1)) ^^^ (0 - (s &&& 1)) := by
    rcases low_bit f with bit | bit <;> rcases low_bit s with hb' | hb' <;>
      rw [bit, hb'] <;> decide
  unfold bitStep
  rw [hj, shiftRight_xor, hm, and_xor]
  ac_rfl

theorem iterate_xor (n : ℕ) (f s : UInt32) : (bitStep p)^[n] (f ^^^ s) =
      (bitStep p)^[n] f ^^^ (bitStep p)^[n] s := by
  induction n generalizing f s with
  | zero => rfl
  | succ n ih => rw [Function.iterate_succ_apply, bitStep_xor, ih]; rfl

theorem toNat_bitStep_even {crc : UInt32} (he : crc.toNat % 2 = 0) :
    (bitStep p crc).toNat = crc.toNat / 2 := by
  have hc : crc &&& 1 = 0 := by
    apply UInt32.toNat_inj.mp
    exact (and_one_is_mod _).trans he
  unfold bitStep
  rw [hc]
  simp [shiftRight_eq_div_pow]

theorem toNat_iterate_high {crc : UInt32} {n : ℕ} (hc : 2 ^ n ∣ crc.toNat) :
    ((bitStep p)^[n] crc).toNat = crc.toNat / 2 ^ n := by
  induction n generalizing crc with
  | zero => simp
  | succ n ih =>
    obtain ⟨high, hs⟩ := hc
    have hd : crc.toNat = 2 * (2 ^ n * high) := by
      rw [hs, pow_succ, mul_comm (2 ^ n), mul_assoc]
    have hh : (bitStep p crc).toNat = 2 ^ n * high := by
      rw [toNat_bitStep_even p (by omega), hd]
      omega
    rw [Function.iterate_succ_apply, ih ⟨high, hh⟩, hh, hs, Nat.mul_div_cancel_left _
      (Nat.two_pow_pos n), Nat.mul_div_cancel_left _ (Nat.two_pow_pos _)]

theorem xor_high (n : ℕ) : n % 2 ^ 8 ^^^ n / 2 ^ 8 * 2 ^ 8 = n := by
  apply eq_of_testBit_eq
  intro i
  rw [testBit_xor, testBit_mod_two_pow, testBit_mul_two_pow, testBit_div_two_pow]
  by_cases low : i < 8
  · have ha : ¬8 ≤ i := by omega
    simp [low, ha]
  · have ha : 8 ≤ i := by omega
    simp [low, ha]

theorem toNat_octet (crc : UInt32) : (crc &&& 0xff).toNat = crc.toNat % 2 ^ 8 := by
  exact and_two_pow_sub_one_eq_mod _ 8

theorem iterate_eight (crc : UInt32) :
    (bitStep p)^[8] crc = tableEntry p (crc &&& 0xff).toNat ^^^ (crc >>> 8) := by
  have hb := crc.toNat_lt
  have hh : (UInt32.ofNat (crc.toNat / 2 ^ 8 * 2 ^ 8)).toNat = crc.toNat / 2 ^ 8 * 2 ^ 8 :=
    toNat_ofNat_of_lt' (by change _ < 4294967296; omega)
  have hs : crc = (crc &&& 0xff) ^^^ .ofNat (crc.toNat / 2 ^ 8 * 2 ^ 8) := by
    apply UInt32.toNat_inj.mp
    rw [UInt32.toNat_xor, hh, toNat_octet, xor_high]
  have hm : (bitStep p)^[8] (.ofNat (crc.toNat / 2 ^ 8 * 2 ^ 8)) = crc >>> 8 := by
    apply UInt32.toNat_inj.mp
    rw [toNat_iterate_high p (by rw [hh]; exact Nat.dvd_mul_left _ _), hh,
      Nat.mul_div_cancel _ (by decide), UInt32.toNat_shiftRight, Nat.shiftRight_eq_div_pow]
    rfl
  have ho : (bitStep p)^[8] (crc &&& 0xff) =
      tableEntry p (crc &&& 0xff).toNat := by
    rw [tableEntry, UInt32.ofNat_toNat]
  calc (bitStep p)^[8] crc
      = (bitStep p)^[8] ((crc &&& 0xff) ^^^ .ofNat (crc.toNat / 2 ^ 8 * 2 ^ 8)) := by
        rw [← hs]
    _ = tableEntry p (crc &&& 0xff).toNat ^^^ (crc >>> 8) := by
        rw [iterate_xor, ho, hm]

theorem tableStep_eq (crc : UInt32) (b : UInt8) : tableStep (table p) crc b = byteStep p crc b := by
  have hs : ((crc ^^^ b.toUInt32) &&& 0xff).toNat < 256 := by
    rw [toNat_octet]
    omega
  have he : (table p).getD ((crc ^^^ b.toUInt32) &&& 0xff).toNat 0 =
      tableEntry p ((crc ^^^ b.toUInt32) &&& 0xff).toNat := by
    rw [table, List.getD_eq_getElem?_getD, List.getElem?_map, List.getElem?_range hs]
    rfl
  have hg : (crc ^^^ b.toUInt32) >>> 8 = crc >>> 8 := by
    apply UInt32.toNat_inj.mp
    have ho := b.toNat_lt
    rw [UInt32.shiftRight_xor, UInt32.toNat_xor]
    have hc : (b.toUInt32 >>> 8).toNat = 0 := by
      rw [UInt32.toNat_shiftRight, UInt8.toNat_toUInt32, shiftRight_eq_div_pow]
      exact div_eq_of_lt ho
    rw [hc, xor_zero]
  rw [tableStep, byteStep, he, iterate_eight, hg]

/-- The two ways to divide leave the same remainder of any message. -/
theorem foldl_tableStep (crc : UInt32) (d : Bytes) :
    d.foldl (tableStep (table p)) crc = d.foldl (byteStep p) crc := by
  induction d generalizing crc with
  | nil => rfl
  | cons byte d ih => rw [List.foldl_cons, tableStep_eq, ih, List.foldl_cons]

end VitaDebugger.ReflectedCrc
