import Mathlib.Data.Nat.Bitwise
import Mathlib.Data.Nat.Notation

/-! Fields of machine words as numbers. A word under a mask is the sum of the fields the mask
selects, each at its place, so a test of fixed bits is a statement about fields. -/

namespace VitaDebugger.BitField
open BitVec

/-- The bits `high` down to `low` of a word. -/
def bits {w : ℕ} (word : BitVec w) (high low : ℕ) : ℕ := word.toNat / 2 ^ low % 2 ^ (high + 1 - low)

/-- Fields from the highest down, each with its lowest bit and its width. -/
def maskOf : List (ℕ × ℕ) → ℕ
  | [] => 0
  | (low, width) :: rest => (2 ^ width - 1) * 2 ^ low + maskOf rest

def fieldsOf (n : ℕ) : List (ℕ × ℕ) → ℕ
  | [] => 0
  | (low, width) :: rest => n / 2 ^ low % 2 ^ width * 2 ^ low + fieldsOf n rest

/-- No field reaches into the one above it. -/
def Descends : List (ℕ × ℕ) → Prop
  | [] => True
  | (low, _) :: rest => maskOf rest < 2 ^ low ∧ Descends rest

instance : DecidablePred Descends := fun fields => by
  induction fields with
  | nil => exact inferInstanceAs (Decidable True)
  | cons field rest ih => exact @instDecidableAnd _ _ _ ih

theorem and_field (n low w : ℕ) : n &&& (2 ^ w - 1) * 2 ^ low = n / 2 ^ low % 2 ^ w * 2 ^ low := by
  apply Nat.eq_of_testBit_eq
  intro i
  rw [Nat.testBit_and, Nat.testBit_mul_two_pow, Nat.testBit_mul_two_pow, Nat.testBit_mod_two_pow,
    Nat.testBit_div_two_pow, Nat.testBit_two_pow_sub_one]
  by_cases ha : low ≤ i
  · simp [ha, Bool.and_comm]
  · simp [ha]

variable {n : ℕ}

theorem and_add_low {hg rest low : ℕ} (hs : rest < 2 ^ low) :
    n &&& hg * 2 ^ low + rest = (n &&& hg * 2 ^ low) + (n &&& rest) := by
  have hsp : hg * 2 ^ low + rest = hg * 2 ^ low ||| rest := by
    rw [Nat.mul_comm, Nat.two_pow_add_eq_or_of_lt hs]
  have hp : n &&& hg * 2 ^ low = (n / 2 ^ low &&& hg) * 2 ^ low := by
    apply Nat.eq_of_testBit_eq
    intro i
    rw [Nat.testBit_and, Nat.testBit_mul_two_pow, Nat.testBit_mul_two_pow, Nat.testBit_and,
      Nat.testBit_div_two_pow]
    by_cases ha : low ≤ i
    · simp [ha, Nat.sub_add_cancel ha]
    · simp [ha]
  have hl : n &&& rest < 2 ^ low := lt_of_le_of_lt Nat.and_le_right hs
  rw [hsp, Nat.and_or_distrib_left, hp, Nat.mul_comm _ (2 ^ low), Nat.two_pow_add_eq_or_of_lt hl]

theorem and_maskOf (n : ℕ) {fs : List (ℕ × ℕ)} (hd : Descends fs) :
    n &&& maskOf fs = fieldsOf n fs := by
  induction fs with
  | nil => exact Nat.and_zero n
  | cons field rest ih =>
    rw [maskOf, fieldsOf, and_add_low hd.1, and_field, ih hd.2]

theorem toNat_and_mask {w : ℕ} (word mask : BitVec w) (fs : List (ℕ × ℕ))
    (hd : Descends fs) (hs : mask.toNat = maskOf fs) :
    (word &&& mask).toNat = fieldsOf word.toNat fs := by
  rw [toNat_and, hs, and_maskOf _ hd]

theorem bits_lt {w : ℕ} (word : BitVec w) (high low : ℕ) :
    bits word high low < 2 ^ (high + 1 - low) := Nat.mod_lt _ (Nat.two_pow_pos _)

/-- The fields, from the highest down with their last bits, that a mask selects and the values
they have in a value. -/
def reads : ℕ → ℕ → List (ℕ × ℕ × ℕ) → Bool
  | mask, value, [] => mask == 0 && value == 0
  | mask, value, (high, low, field) :: rest => mask / 2 ^ low == 2 ^ (high + 1 - low) - 1 &&
    value / 2 ^ low == field && reads (mask % 2 ^ low) (value % 2 ^ low) rest

def HasFields {w : ℕ} (word : BitVec w) : List (ℕ × ℕ × ℕ) → Prop
  | [] => True
  | [(high, low, field)] => bits word high low = field
  | (high, low, field) :: rest => bits word high low = field ∧ HasFields word rest

theorem hasFields_cons {w : ℕ} (word : BitVec w) (high low f : ℕ) (rest : List (ℕ × ℕ × ℕ)) :
    HasFields word ((high, low, f) :: rest) ↔
      bits word high low = f ∧ HasFields word rest := by
  cases rest with
  | nil => exact (and_iff_left trivial).symm
  | cons => rfl

theorem nat_and_eq_iff {w m value : ℕ} (word : BitVec w) {fs : List (ℕ × ℕ × ℕ)}
    (fit : reads m value fs) : word.toNat &&& m = value ↔ HasFields word fs := by
  induction fs generalizing m value with
  | nil =>
    obtain ⟨rfl, rfl⟩ : m = 0 ∧ value = 0 := by simpa [reads] using fit
    simp [HasFields]
  | cons f rest ih =>
    obtain ⟨high, low, f⟩ := f
    obtain ⟨⟨top, rfl⟩, hr⟩ : (m / 2 ^ low = 2 ^ (high + 1 - low) - 1 ∧ value / 2 ^ low = f) ∧
        reads (m % 2 ^ low) (value % 2 ^ low) rest := by simpa [reads] using fit
    have hu : (word.toNat &&& m) / 2 ^ low = bits word high low := by
      rw [Nat.and_div_two_pow, top, Nat.and_two_pow_sub_one_eq_mod, bits]
    have hl : (word.toNat &&& m) % 2 ^ low = word.toNat &&& m % 2 ^ low := by
      have hsm := Nat.mod_lt m (Nat.two_pow_pos low)
      have hk := Nat.mod_eq_of_lt (lt_of_le_of_lt (@Nat.and_le_right word.toNat _) hsm)
      rw [Nat.and_mod_two_pow, Nat.mod_mod] at hk
      rw [Nat.and_mod_two_pow, hk]
    rw [hasFields_cons, ← ih hr, ← hu, ← hl]
    refine ⟨fun hsa => hsa ▸ ⟨rfl, rfl⟩, fun ⟨hf, hs⟩ => ?_⟩
    rw [← Nat.div_add_mod (word.toNat &&& m) (2 ^ low), hf, hs, Nat.div_add_mod]

variable {value : ℕ}

theorem xor_two_pow_of_lt (low : value < 2 ^ n) : value ^^^ 2 ^ n = 2 ^ n + value := by
  apply Nat.eq_of_testBit_eq
  intro i
  rw [Nat.testBit_xor, Nat.testBit_two_pow]
  by_cases hs : n = i
  · subst hs
    rw [Nat.testBit_lt_two_pow low, Nat.testBit_two_pow_add_eq, Nat.testBit_lt_two_pow low]
    simp
  have hof : 2 ^ n + value = 2 ^ n * 1 ||| value := by
    rw [← Nat.two_pow_add_eq_or_of_lt low, Nat.mul_one]
  rw [hof, Nat.mul_one, Nat.testBit_or, Nat.testBit_two_pow]
  simp [hs]

theorem xor_two_pow_of_le (hh : 2 ^ n ≤ value) (hs : value < 2 ^ (n + 1)) :
    value ^^^ 2 ^ n = value - 2 ^ n := by
  have hr : value - 2 ^ n < 2 ^ n := by omega
  have ht := xor_two_pow_of_lt hr
  rw [Nat.add_sub_cancel' hh] at ht
  calc value ^^^ 2 ^ n = (value - 2 ^ n ^^^ 2 ^ n) ^^^ 2 ^ n := by rw [ht]
    _ = value - 2 ^ n := by rw [Nat.xor_assoc, Nat.xor_self, Nat.xor_zero]

theorem xor_sub_eq_signExtend (hs : value < 2 ^ (n + 1)) (hf : n < 32) :
    (BitVec.ofNat 32 value ^^^ BitVec.ofNat 32 (2 ^ n)) - BitVec.ofNat 32 (2 ^ n) =
      (BitVec.ofNat (n + 1) value).signExtend 32 := by
  have hw : 2 ^ (n + 1) ≤ 2 ^ 32 := Nat.pow_le_pow_right (by decide) hf
  have hvm : value % 2 ^ 32 = value := Nat.mod_eq_of_lt (lt_of_lt_of_le hs hw)
  have hsm : 2 ^ n % 2 ^ 32 = 2 ^ n := Nat.mod_eq_of_lt (by omega)
  apply eq_of_toNat_eq
  rw [toNat_sub, toNat_xor, toNat_signExtend, msb_eq_decide]
  simp only [toNat_ofNat, toNat_setWidth, hvm, hsm, Nat.mod_eq_of_lt hs, Nat.add_sub_cancel]
  by_cases hh : 2 ^ n ≤ value
  · rw [xor_two_pow_of_le hh hs]
    simp only [hh, decide_true, if_true]
    omega
  · rw [xor_two_pow_of_lt (Nat.lt_of_not_le hh)]
    simp only [hh, decide_false, Bool.false_eq_true, if_false]
    omega

end VitaDebugger.BitField
