import Mathlib.Data.Nat.Bits
import Mathlib.Tactic.Ring

/-! The companion's clock turns microseconds into milliseconds by long division over
the bits of the reading, because it is linked without the compiler's 64-bit division.
The words of the loop are compared with the same division over unbounded numbers. -/
namespace VitaDebugger.ClockDivision

/-- The two variables of a long division. -/
structure Division (Q R : Type) where
  quotient : Q
  remainder : R
  deriving DecidableEq, Repr

section Exact
variable (d n : ℕ)

/-- The remainder with the next bit of the dividend brought down. -/
def broughtDown (bit r : ℕ) : ℕ := 2 * r + n / 2 ^ bit % 2

def exactRound (bit : ℕ) (s : Division ℕ ℕ) : Division ℕ ℕ :=
  let r := broughtDown n bit s.remainder
  if d ≤ r then ⟨s.quotient + 2 ^ bit, r - d⟩ else ⟨s.quotient, r⟩

/-- The first `k` rounds of a division of a number of `w` bits. -/
def exactRounds (w : ℕ) : ℕ → Division ℕ ℕ
  | 0 => ⟨0, 0⟩
  | k + 1 => exactRound d n (w - 1 - k) (exactRounds w k)

variable {d n}

theorem double_split (d m c : ℕ) : 2 * m + c = d * (2 * (m / d)) + (2 * (m % d) + c) := by
  have h := Nat.div_add_mod m d
  rw [Nat.mul_left_comm]
  omega

theorem double_div {m c : ℕ} (hd : 0 < d) (hc : c < 2) :
    (2 * m + c) / d = 2 * (m / d) + if d ≤ 2 * (m % d) + c then 1 else 0 := by
  have hr := Nat.mod_lt m hd
  rw [double_split d, Nat.mul_add_div hd]
  congr 1
  split_ifs with h
  · exact Nat.div_eq_of_lt_le (by omega) (by omega)
  · exact Nat.div_eq_of_lt (not_le.mp h)

theorem double_mod {m c : ℕ} (hd : 0 < d) (hc : c < 2) :
    (2 * m + c) % d =
      if d ≤ 2 * (m % d) + c then 2 * (m % d) + c - d else 2 * (m % d) + c := by
  have hr := Nat.mod_lt m hd
  rw [double_split d, Nat.mul_add_mod]
  split_ifs with h
  · rw [Nat.mod_eq_sub_mod h]
    exact Nat.mod_eq_of_lt (by omega)
  · exact Nat.mod_eq_of_lt (not_le.mp h)

/-- The division of the bits from `bit` on, with the quotient in its final place. -/
def divided (d n bit : ℕ) : Division ℕ ℕ :=
  ⟨n / 2 ^ bit / d * 2 ^ bit, n / 2 ^ bit % d⟩

theorem exactRound_divided (hd : 0 < d) (bit : ℕ) :
    exactRound d n bit (divided d n (bit + 1)) = divided d n bit := by
  have hc : n / 2 ^ bit % 2 < 2 := Nat.mod_lt _ two_pos
  have hm : n / 2 ^ bit = 2 * (n / 2 ^ (bit + 1)) + n / 2 ^ bit % 2 := by
    rw [pow_succ, ← Nat.div_div_eq_div_mul, Nat.div_add_mod]
  have hq := @double_div d (n / 2 ^ (bit + 1)) _ hd hc
  have hr := @double_mod d (n / 2 ^ (bit + 1)) _ hd hc
  rw [← hm] at hq hr
  by_cases h : d ≤ 2 * (n / 2 ^ (bit + 1) % d) + n / 2 ^ bit % 2
  · rw [if_pos h] at hq hr
    rw [exactRound, divided, broughtDown, if_pos h, divided, hq, hr, pow_succ]
    congr 1
    ring
  · rw [if_neg h] at hq hr
    rw [exactRound, divided, broughtDown, if_neg h, divided, hq, hr, pow_succ]
    congr 1
    ring

theorem exactRounds_divided {w : ℕ} (hd : 0 < d) (hn : n < 2 ^ w) (k : ℕ) (hk : k ≤ w) :
    exactRounds d n w k = divided d n (w - k) := by
  induction k with
  | zero => simp [exactRounds, divided, Nat.div_eq_of_lt hn]
  | succ k ih =>
    have hb : w - k = w - 1 - k + 1 := by omega
    have he : w - (k + 1) = w - 1 - k := by omega
    rw [exactRounds, ih (by omega), hb, exactRound_divided hd, he]

end Exact

section Words
variable (microseconds : UInt64)

def shifted (bit : ℕ) (remainder : UInt32) : UInt32 :=
  (remainder <<< 1) ||| ((microseconds >>> bit.toUInt64) &&& 1).toUInt32

def divisionRound (bit : ℕ) (s : Division UInt64 UInt32) : Division UInt64 UInt32 :=
  let remainder := shifted microseconds bit s.remainder
  if remainder ≥ 1000 then ⟨s.quotient ||| (1 <<< bit.toUInt64), remainder - 1000⟩
  else ⟨s.quotient, remainder⟩

/-- The loop's variables after `k` rounds; round `k` is the one for bit `63 - k`. -/
def rounds : ℕ → Division UInt64 UInt32
  | 0 => ⟨0, 0⟩
  | k + 1 => divisionRound microseconds (63 - k) (rounds k)

def microsecondsToMilliseconds : UInt64 := (rounds microseconds 64).quotient

def values (s : Division UInt64 UInt32) : Division ℕ ℕ :=
  ⟨s.quotient.toNat, s.remainder.toNat⟩

end Words

section Rounds
variable {x : UInt64}

theorem shift_toNat {bit : ℕ} (hb : bit < 64) : bit.toUInt64.toNat % 64 = bit := by
  rw [Nat.toUInt64_eq, UInt64.toNat_ofNat']
  omega

theorem shifted_toNat {bit : ℕ} {r : UInt32} (hb : bit < 64)
    (hr : r.toNat < 1000) :
    (shifted x bit r).toNat =
      broughtDown x.toNat bit r.toNat := by
  have hc : x.toNat / 2 ^ bit % 2 < 2 ^ 1 := Nat.mod_lt _ two_pos
  have hs : r.toNat <<< 1 % 2 ^ 32 = r.toNat <<< 1 := by
    rw [Nat.shiftLeft_eq]
    omega
  have ht : x.toNat / 2 ^ bit % 2 % 2 ^ 32 = x.toNat / 2 ^ bit % 2 := by
    omega
  rw [shifted, UInt32.toNat_or, UInt32.toNat_shiftLeft, UInt64.toNat_toUInt32, UInt64.toNat_and,
    UInt64.toNat_shiftRight, shift_toNat hb]
  change r.toNat <<< 1 % 2 ^ 32 ||| (x.toNat >>> bit &&& 1) % 2 ^ 32 = _
  rw [Nat.and_one_is_mod, Nat.shiftRight_eq_div_pow, ht, hs,
    ← Nat.shiftLeft_add_eq_or_of_lt hc, Nat.shiftLeft_eq, broughtDown]
  omega

/-- The bit a round sets is clear in a quotient whose lower bits are still open. -/
theorem quotient_toNat {bit q : ℕ} {qt : UInt64} (hb : bit < 64)
    (hq : qt.toNat = q * 2 ^ (bit + 1)) :
    (qt ||| (1 <<< bit.toUInt64)).toNat = qt.toNat + 2 ^ bit := by
  have hp : 2 ^ bit < 2 ^ 64 := Nat.pow_lt_pow_right (by decide) hb
  have hl : 2 ^ bit < 2 ^ (bit + 1) := Nat.pow_lt_pow_right (by decide) bit.lt_succ_self
  rw [UInt64.toNat_or, UInt64.toNat_shiftLeft, shift_toNat hb]
  change qt.toNat ||| 1 <<< bit % 2 ^ 64 = _
  rw [Nat.one_shiftLeft, Nat.mod_eq_of_lt hp, hq, ← Nat.shiftLeft_eq,
    Nat.shiftLeft_add_eq_or_of_lt hl]

/-- A round on a state that fits does what the exact round does. -/
theorem divisionRound_values {bit : ℕ} {s : Division UInt64 UInt32} (hb : bit < 64)
    (hs : values s = divided 1000 x.toNat (bit + 1)) :
    values (divisionRound x bit s) =
      exactRound 1000 x.toNat bit (values s) := by
  obtain ⟨hq, hr⟩ := Division.mk.inj hs
  have hl : s.remainder.toNat < 1000 := by
    rw [hr]
    exact Nat.mod_lt _ (by decide)
  have hd := @shifted_toNat x bit s.remainder hb hl
  have hc : 1000 ≤ shifted x bit s.remainder ↔
      1000 ≤ broughtDown x.toNat bit s.remainder.toNat := by
    rw [UInt32.le_iff_toNat_le, hd]
    rfl
  by_cases h : 1000 ≤ shifted x bit s.remainder
  · have hv : (shifted x bit s.remainder - 1000).toNat =
        broughtDown x.toNat bit s.remainder.toNat - 1000 := by
      rw [UInt32.toNat_sub_of_le _ _ h, hd]
      rfl
    have hw : divisionRound x bit s = ⟨_, _⟩ := if_pos h
    have he : exactRound 1000 x.toNat bit (values s) = ⟨_, _⟩ := if_pos (hc.mp h)
    rw [hw, he, values, hv, quotient_toNat hb hq]
    rfl
  · have hw : divisionRound x bit s = ⟨_, _⟩ := if_neg h
    have he : exactRound 1000 x.toNat bit (values s) = ⟨_, _⟩ := if_neg (mt hc.mpr h)
    rw [hw, he, values, hd]
    rfl

theorem rounds_divided (k : ℕ) (hk : k ≤ 64) :
    values (rounds x k) = divided 1000 x.toNat (64 - k) := by
  induction k with
  | zero => simp [rounds, values, divided, Nat.div_eq_of_lt x.toNat_lt]
  | succ k ih =>
    have hb : 64 - k = 63 - k + 1 := by omega
    have he : 64 - (k + 1) = 63 - k := by omega
    have hs := ih (by omega)
    rw [hb] at hs
    rw [rounds, divisionRound_values (by omega) hs, hs, exactRound_divided (by decide), he]

/-- The words of the loop are at every round the numbers of the exact division, with the
remainder below the divisor and no bit lost when it is shifted, and the result is the
quotient rounded down. -/
theorem clock_division (x : UInt64) :
    (microsecondsToMilliseconds x).toNat = x.toNat / 1000 ∧
      (∀ k ≤ 64, values (rounds x k) = exactRounds 1000 x.toNat 64 k ∧
        (rounds x k).remainder.toNat < 1000) ∧
      ∀ k < 64, (shifted x (63 - k) (rounds x k).remainder).toNat =
        broughtDown x.toNat (63 - k) (rounds x k).remainder.toNat := by
  have hr (k : ℕ) (hk : k ≤ 64) : (rounds x k).remainder.toNat < 1000 := by
    rw [(Division.mk.inj (rounds_divided k hk)).2]
    exact Nat.mod_lt _ (by decide)
  refine ⟨?_, fun k hk => ⟨?_, hr k hk⟩, fun k hk => shifted_toNat (by omega) (hr k hk.le)⟩
  · rw [microsecondsToMilliseconds, (Division.mk.inj (rounds_divided 64 le_rfl)).1]
    simp
  · rw [rounds_divided k hk, exactRounds_divided (by decide) x.toNat_lt k hk]

example : microsecondsToMilliseconds 18446744073709551615 = 18446744073709551 := by
  decide +kernel

end Rounds

end VitaDebugger.ClockDivision
