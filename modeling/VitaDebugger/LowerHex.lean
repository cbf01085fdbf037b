import Mathlib.Algebra.Group.Nat.Defs
import Mathlib.Data.List.Basic
import VitaDebugger.Bytes

/-! Bytes as pairs of lowercase hexadecimal digits, and numbers of a fixed count of digits. -/

namespace VitaDebugger.LowerHex
open List Option Nat UInt8

/-- A property of bytes is checked on all of them. -/
instance decidableBytes {P : UInt8 → Prop} [DecidablePred P] : Decidable (∀ c, P c) :=
  decidable_of_iff (∀ n : Fin 256, P (UInt8.ofNat n))
    ⟨fun h c => UInt8.ofNat_toNat (x := c) ▸ h ⟨c.toNat, c.toNat_lt⟩, fun h _ => h _⟩

def IsHex (c : UInt8) : Prop := 48 ≤ c ∧ c ≤ 57 ∨ 97 ≤ c ∧ c ≤ 102

instance (c : UInt8) : Decidable (IsHex c) := inferInstanceAs (Decidable (_ ∨ _))

def hexChar (nibble : UInt8) : UInt8 := if nibble < 10 then 48 + nibble else 87 + nibble

/-- The value of a digit; other characters have none. -/
def hexNibble (c : UInt8) : Option UInt8 :=
  if 48 ≤ c ∧ c ≤ 57 then some (c - 48)
  else if 97 ≤ c ∧ c ≤ 102 then some (c - 97 + 10)
  else none

def encode (bytes : Bytes) : Bytes :=
  bytes.flatMap fun byte : UInt8 => [hexChar (byte >>> 4), hexChar (byte &&& 15)]

def decode : Bytes → Option Bytes
  | [] => some []
  | [_] => none
  | high :: low :: rest => do
    let high ← hexNibble high
    let low ← hexNibble low
    let bytes ← decode rest
    pure ((high <<< 4 ||| low) :: bytes)

theorem byte_digits (b : UInt8) : ∃ high low,
    hexNibble (hexChar (b >>> 4)) = some high ∧ hexNibble (hexChar (b &&& 15)) = some low ∧
      high <<< 4 ||| low = b ∧ IsHex (hexChar (b >>> 4)) ∧ IsHex (hexChar (b &&& 15)) := by
  refine ⟨b >>> 4, b &&& 15, ?_⟩
  revert b
  decide +kernel

theorem decode_encode (bs : Bytes) : decode (encode bs) = some bs := by
  induction bs with
  | nil => rfl
  | cons byte rest ih =>
    obtain ⟨high, low, hf, hs, hw, _⟩ := byte_digits byte
    change decode (hexChar (byte >>> 4) :: hexChar (byte &&& 15) :: encode rest) = _
    simp only [decode, hf, hs, ih, Option.bind_eq_bind, Option.bind_some, Option.pure_def, hw]

theorem encode_length (bs : Bytes) : (encode bs).length = 2 * bs.length := by
  induction bs with
  | nil => rfl
  | cons byte rest ih =>
    change (_ :: _ :: encode rest).length = _
    rw [length_cons, length_cons, ih, length_cons]
    omega

theorem encode_isHex (bs : Bytes) : ∀ c ∈ encode bs, IsHex c := by
  intro c hi
  obtain ⟨byte, _, hd⟩ := mem_flatMap.mp hi
  obtain ⟨_, _, _, _, _, hh, low⟩ := byte_digits byte
  rcases mem_cons.mp hd with rfl | hd
  · exact hh
  · rw [mem_singleton.mp hd]
    exact low

variable {text : Bytes}

section Numbers

theorem hexChar_nibble : ∀ c : UInt8, IsHex c → ∃ n : Fin 16, c = hexChar (UInt8.ofNat n) := by
  decide +kernel

theorem hexChar_pair : ∀ n m : Fin 16, ∃ byte : UInt8,
    hexChar (byte >>> 4) = hexChar (UInt8.ofNat n) ∧
    hexChar (byte &&& 15) = hexChar (UInt8.ofNat m) := by
  intro n m
  refine ⟨UInt8.ofNat n <<< 4 ||| UInt8.ofNat m, ?_⟩
  revert n m
  decide +kernel

/-- Every text of digits encodes some bytes. -/
theorem exists_encode {n : ℕ} {text : Bytes} (hl : text.length = 2 * n)
    (hex : ∀ c ∈ text, IsHex c) : ∃ bs : Bytes, bs.length = n ∧ encode bs = text := by
  induction n generalizing text with
  | zero => exact ⟨[], rfl, (length_eq_zero_iff.mp hl).symm⟩
  | succ n ih =>
    match text with
    | high :: low :: rest =>
      simp only [forall_mem_cons] at hex
      obtain ⟨bs, hb, he⟩ := ih (by simpa [Nat.mul_add] using hl) hex.2.2
      obtain ⟨i, rfl⟩ := hexChar_nibble high hex.1
      obtain ⟨j, rfl⟩ := hexChar_nibble low hex.2.1
      obtain ⟨byte, hh, hw⟩ := hexChar_pair i j
      refine ⟨byte :: bs, by rw [length_cons, hb], ?_⟩
      rw [encode, flatMap_cons, ← encode, he, hh, hw]
      rfl

/-- The last digits of a number, as many as the width says. -/
def hexText : ℕ → ℕ → Bytes
  | 0, _ => []
  | width + 1, value => hexText width (value / 16) ++ [hexChar (UInt8.ofNat (value % 16))]

def nibbleValue (c : UInt8) : ℕ := if c ≤ 57 then c.toNat - 48 else c.toNat - 87

def hexValueFrom (start : ℕ) (text : Bytes) : ℕ :=
  text.foldl (fun value c => value * 16 + nibbleValue c) start

def hexValue (text : Bytes) : ℕ := hexValueFrom 0 text

theorem hexText_length (width v : ℕ) : (hexText width v).length = width := by
  induction width generalizing v with
  | zero => rfl
  | succ width ih => rw [hexText, length_append, ih, length_singleton]

theorem nibble_checked : ∀ n : Fin 16,
    IsHex (hexChar (UInt8.ofNat n)) ∧ nibbleValue (hexChar (UInt8.ofNat n)) = n := by
  decide

theorem nibbleValue_hexChar {n : ℕ} (hs : n < 16) :
    IsHex (hexChar (UInt8.ofNat n)) ∧ nibbleValue (hexChar (UInt8.ofNat n)) = n :=
  nibble_checked ⟨n, hs⟩

theorem hexText_isHex (w v : ℕ) : ∀ c ∈ hexText w v, IsHex c := by
  induction w generalizing v with
  | zero => exact fun c hi => absurd hi not_mem_nil
  | succ w ih =>
    refine forall_mem_append.mpr ⟨ih _, forall_mem_singleton.mpr ?_⟩
    exact (nibbleValue_hexChar (mod_lt _ (by decide))).1

theorem hexValueFrom_append (s : ℕ) (f back : Bytes) :
    hexValueFrom s (f ++ back) = hexValueFrom (hexValueFrom s f) back :=
  foldl_append

theorem hexValue_hexText {w value : ℕ} (hs : value < 16 ^ w) :
    hexValue (hexText w value) = value := by
  induction w generalizing value with
  | zero =>
    have zero : value = 0 := by simpa using hs
    rw [zero]
    rfl
  | succ w ih =>
    have front : hexValueFrom 0 (hexText w (value / 16)) = value / 16 := ih (by omega)
    have last := (nibbleValue_hexChar (mod_lt value (show 0 < 16 by decide))).2
    rw [hexValue, hexText, hexValueFrom_append, front]
    change value / 16 * 16 + nibbleValue _ = value
    omega

theorem nibbleValue_lt {c : UInt8} (hex : IsHex c) : nibbleValue c < 16 := by
  change 48 ≤ c.toNat ∧ c.toNat ≤ 57 ∨ 97 ≤ c.toNat ∧ c.toNat ≤ 102 at hex
  change (if c.toNat ≤ 57 then c.toNat - 48 else c.toNat - 87) < 16
  split <;> omega

theorem nibbleValue_eq_zero {c : UInt8} (hex : IsHex c) : nibbleValue c = 0 ↔ c = 48 := by
  simp only [nibbleValue, UInt8.le_iff_toNat_le, ← UInt8.toNat_inj]
  change 48 ≤ c.toNat ∧ c.toNat ≤ 57 ∨ 97 ≤ c.toNat ∧ c.toNat ≤ 102 at hex
  change (if c.toNat ≤ 57 then c.toNat - 48 else c.toNat - 87) = 0 ↔ c.toNat = 48
  split <;> omega

section
variable (hex : ∀ c ∈ text, IsHex c)
include hex

theorem hexValueFrom_eq_zero {s : ℕ} : hexValueFrom s text = 0 ↔ s = 0 ∧ ∀ c ∈ text, c = 48 := by
  induction text generalizing s with
  | nil => simp [hexValueFrom]
  | cons c text ih =>
    obtain ⟨hf, ho⟩ := forall_mem_cons.mp hex
    have hs : s * 16 = 0 ↔ s = 0 := by omega
    change hexValueFrom (s * 16 + nibbleValue c) text = 0 ↔ _
    rw [ih ho, List.forall_mem_cons, Nat.add_eq_zero_iff, nibbleValue_eq_zero hf, hs, and_assoc]

theorem hexValue_eq_zero : hexValue text = 0 ↔ ∀ c ∈ text, c = 48 := by
  rw [hexValue, hexValueFrom_eq_zero hex]
  exact and_iff_right rfl

theorem hexValueFrom_lt {s b : ℕ} (hs : s < b) : hexValueFrom s text < b * 16 ^ text.length := by
  induction text generalizing s b with
  | nil => simpa [hexValueFrom] using hs
  | cons c text ih =>
    obtain ⟨hf, ho⟩ := forall_mem_cons.mp hex
    have hd := nibbleValue_lt hf
    have hl := ih ho (show s * 16 + nibbleValue c < b * 16 by omega)
    rw [length_cons, pow_succ', ← mul_assoc]
    exact hl

theorem hexValue_lt : hexValue text < 16 ^ text.length := by
  have hb := hexValueFrom_lt hex (Nat.zero_lt_one)
  rwa [Nat.one_mul] at hb

end

end Numbers

end VitaDebugger.LowerHex
