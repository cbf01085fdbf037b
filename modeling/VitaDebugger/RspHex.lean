import Mathlib.Data.List.Basic
import Mathlib.Tactic.Ring
import Mathlib.Tactic.SplitIfs
import VitaDebugger.Bytes

/-! Hexadecimal text of the remote serial protocol, as decoded by `uvdb_rsp.c`. -/

namespace VitaDebugger.RspHex
open Option

def hexValue (digit : UInt8) : Option UInt8 :=
  if 48 ≤ digit ∧ digit ≤ 57 then some (digit - 48)
  else if 97 ≤ digit ∧ digit ≤ 102 then some (digit - 97 + 10)
  else if 65 ≤ digit ∧ digit ≤ 70 then some (digit - 65 + 10)
  else none

def hexPairs : Bytes → Option Bytes
  | [] => some []
  | [_] => none
  | high :: low :: rest => do
    let high ← hexValue high
    let low ← hexValue low
    let bytes ← hexPairs rest
    pure ((high <<< 4 ||| low) :: bytes)

/-- Decode exactly `outputSize` bytes; a bad digit anywhere writes nothing. -/
def decodeHexBytes (outputSize : ℕ) (text : Bytes) : Option Bytes :=
  if text.length = outputSize * 2 then hexPairs text else none

theorem hexValue_lt {t d : UInt8} (hs : hexValue t = some d) : d.toNat < 16 := by
  simp only [hexValue] at hs
  split_ifs at hs with decimal lower upper <;> cases hs
  · have hb : t.toNat ≤ 57 := UInt8.le_iff_toNat_le.mp decimal.2
    rw [UInt8.toNat_sub_of_le _ _ decimal.1]
    change t.toNat - 48 < 16
    omega
  · have hb : t.toNat ≤ 102 := UInt8.le_iff_toNat_le.mp lower.2
    rw [UInt8.toNat_add, UInt8.toNat_sub_of_le _ _ lower.1]
    change (t.toNat - 97 + 10) % 256 < 16
    omega
  have hb : t.toNat ≤ 70 := UInt8.le_iff_toNat_le.mp upper.2
  rw [UInt8.toNat_add, UInt8.toNat_sub_of_le _ _ upper.1]
  change (t.toNat - 65 + 10) % 256 < 16
  omega

theorem hexPairs_length {text bs : Bytes} (hd : hexPairs text = some bs) :
    text.length = bs.length * 2 := by
  induction text using hexPairs.induct generalizing bs with
  | case1 =>
    simp only [hexPairs, Option.some.injEq] at hd
    simp [← hd]
  | case2 => simp [hexPairs] at hd
  | case3 high low rest ih =>
    simp only [hexPairs, bind_eq_bind, bind_eq_some_iff, pure_def, Option.some.injEq] at hd
    obtain ⟨_, -, _, -, tail, hd, rfl⟩ := hd
    simp only [List.length_cons, ih hd]
    omega

theorem decodeHexBytes_length {outputSize : ℕ} {text bs : Bytes}
    (hd : decodeHexBytes outputSize text = some bs) : bs.length = outputSize := by
  simp only [decodeHexBytes, ite_none_right_eq_some] at hd
  have hl := hexPairs_length hd.2
  omega

/-- The digit loop of the number parsers, stopped before the value passes `maximum`. -/
def hexLoop (maximum : ℕ) : Bytes → ℕ → Option ℕ
  | [], value => some value
  | digit :: rest, value =>
    match hexValue digit with
    | none => none
    | some nibble =>
      if (maximum - nibble.toNat) / 16 < value then none
      else hexLoop maximum rest (value * 16 + nibble.toNat)

theorem hexLoop_eq {m : ℕ} (t : Bytes) (value : ℕ)
    (hr : (value + 1) * 16 ^ t.length ≤ m + 1) :
    hexLoop m t value = (t.mapM hexValue).map fun ds =>
      (ds.map UInt8.toNat).foldl (fun n d => n * 16 + d) value := by
  induction t generalizing value with
  | nil => rfl
  | cons head rest ih =>
    rw [hexLoop, List.mapM_cons]
    cases hs : hexValue head with
    | none => rfl
    | some d =>
      have hsm := hexValue_lt hs
      have hp : 1 ≤ 16 ^ rest.length := Nat.one_le_pow _ _ (by norm_num)
      have hst : (value * 16 + d.toNat + 1) * 16 ^ rest.length ≤ m + 1 := by
        refine le_trans ?_ hr
        rw [List.length_cons, pow_succ, ← mul_assoc, mul_right_comm]
        gcongr
        omega
      have hb : value * 16 + d.toNat + 1 ≤ m + 1 :=
        le_trans (Nat.le_mul_of_pos_right _ hp) hst
      have hi : ¬(m - d.toNat) / 16 < value := by omega
      simp only [hi, ↓reduceIte, ih _ hst]
      cases rest.mapM hexValue <;> rfl

theorem hexLoop_le {maximum v n : ℕ} {text : Bytes} (hl : 15 ≤ maximum)
    (hi : v ≤ maximum) (hp : hexLoop maximum text v = some n) : n ≤ maximum := by
  induction text generalizing v with
  | nil =>
    cases hp
    exact hi
  | cons head rest ih =>
    rw [hexLoop] at hp
    cases hs : hexValue head with
    | none => simp [hs] at hp
    | some digit =>
      have hsm := hexValue_lt hs
      simp only [hs, ite_none_left_eq_some] at hp
      exact ih (by omega) hp.2

end VitaDebugger.RspHex
