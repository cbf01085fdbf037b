import Mathlib.Data.Int.Notation
import Mathlib.Algebra.Group.Nat.Defs

/-! Positions that count without bound, kept in 32 bits. Two of them less than half the
range apart compare by the sign of their difference, and the positions of one window
have distinct slots in a ring of a power-of-two size. -/

namespace VitaDebugger.WrappedPosition
open Nat

/-- The difference as a signed 32-bit number. -/
def difference (a b : UInt32) : ℤ := (a - b).toBitVec.toInt

theorem difference_ofNat (a b : ℕ) :
    ∃ d : ℕ, d = (2 ^ 32 - b % 2 ^ 32 + a % 2 ^ 32) % 2 ^ 32 ∧ difference (.ofNat a) (.ofNat b) =
      if 2 * d < 2 ^ 32 then (d : ℤ) else (d : ℤ) - (2 ^ 32 : ℕ) := by
  refine ⟨_, rfl, ?_⟩
  rw [difference, BitVec.toInt_eq_toNat_cond, UInt32.toNat_toBitVec, UInt32.toNat_sub,
    UInt32.toNat_ofNat', UInt32.toNat_ofNat']

variable {a b : ℕ}

theorem difference_eq_zero : difference (.ofNat a) (.ofNat b) = 0 ↔ a % 2 ^ 32 = b % 2 ^ 32 := by
  obtain ⟨d, rfl, hv⟩ := difference_ofNat a b
  rw [hv]
  split <;> omega

theorem difference_pos (ha : b < a) (hn : a < b + 2 ^ 31) :
    0 < difference (.ofNat a) (.ofNat b) := by
  obtain ⟨d, rfl, hv⟩ := difference_ofNat a b
  rw [hv]
  split <;> omega

theorem ofNat_inj_of_near (le : b ≤ a) (hn : a < b + 2 ^ 32)
    (hs : UInt32.ofNat a = UInt32.ofNat b) : a = b := by
  have htn := congrArg UInt32.toNat hs
  simp only [UInt32.toNat_ofNat'] at htn
  omega

/-- The slot of a position. -/
def slotIndex (mask position : UInt32) : ℕ := (position &&& mask).toNat

theorem slotIndex_ofNat {k : ℕ} (hs : k < 32) (n : ℕ) :
    slotIndex (.ofNat (2 ^ k) - 1) (.ofNat n) = n % 2 ^ k := by
  have hb : 2 ^ k < 2 ^ 32 := Nat.pow_lt_pow_right (by decide) hs
  have pos : 0 < 2 ^ k := Nat.two_pow_pos k
  have hm : (UInt32.ofNat (2 ^ k) - 1).toNat = 2 ^ k - 1 := by
    rw [UInt32.toNat_sub, UInt32.toNat_ofNat', UInt32.toNat_one, mod_eq_of_lt hb]
    omega
  rw [slotIndex, UInt32.toNat_and, hm, and_two_pow_sub_one_eq_mod, UInt32.toNat_ofNat',
    Nat.mod_mod_of_dvd _ (Nat.pow_dvd_pow 2 (by omega))]

variable {size : ℕ}

theorem mod_ne_of_near {m n : ℕ} (hl : m < n) (hn : n < m + size) : m % size ≠ n % size := by
  intro hs
  have gap : (n - m) % size = 0 := sub_mod_eq_zero_of_mod_eq hs.symm
  rw [mod_eq_of_lt (by omega)] at gap
  omega

theorem eq_of_mod_eq {base m n : ℕ} (hf : base ≤ m ∧ m < base + size)
    (hse : base ≤ n ∧ n < base + size) (hs : m % size = n % size) : m = n := by
  rcases Nat.lt_trichotomy m n with hl | he | hl
  · exact absurd hs (mod_ne_of_near hl (by omega))
  · exact he
  · exact absurd hs.symm (mod_ne_of_near hl (by omega))

theorem exists_in_window (pos : 0 < size) (base p : ℕ) :
    ∃ n, (base ≤ n ∧ n < base + size) ∧ n % size = p % size := by
  have hs := mod_lt p pos
  have hr := mod_lt base pos
  have hsp := div_add_mod base size
  by_cases ha : base % size ≤ p % size
  · refine ⟨size * (base / size) + p % size, by omega, ?_⟩
    rw [mul_add_mod, mod_mod]
  refine ⟨size * (base / size + 1) + p % size, ?_, ?_⟩
  · rw [Nat.mul_add]
    omega
  · rw [mul_add_mod, mod_mod]

end VitaDebugger.WrappedPosition
