import Mathlib.Algebra.GroupWithZero.Nat
import Mathlib.Data.List.Induction
import VitaDebugger.Bytes

/-! ASCII text as bytes: constants, the order of C strings and canonical decimal numbers, which
have no sign and no leading zero. -/

namespace VitaDebugger.AsciiText
open List Nat UInt8

def ascii (text : String) : Bytes := text.toList.map fun c => UInt8.ofNat c.toNat

/-- Comparison of C strings, byte by byte. -/
def strcmp : Bytes → Bytes → Ordering
  | [], [] => .eq
  | [], _ :: _ => .lt
  | _ :: _, [] => .gt
  | a :: left, b :: right => if a < b then .lt else if b < a then .gt else strcmp left right

variable {left right : Bytes}

theorem strcmp_spec :
    (strcmp left right = .lt ↔ left < right) ∧ (strcmp left right = .eq ↔ left = right) := by
  induction left generalizing right with
  | nil => cases right <;> simp [strcmp]
  | cons a left ih =>
    cases right with
    | nil => simp [strcmp]
    | cons b right =>
      rw [strcmp, cons_lt_cons_iff, cons.injEq]
      rcases Std.lt_trichotomy a b with hb | rfl | ha
      · have hu : a ≠ b := fun hs => UInt8.lt_irrefl b (hs ▸ hb)
        simp [hb, hu]
      · simp [ih, UInt8.lt_irrefl]
      · have hu : a ≠ b := fun hs => UInt8.lt_irrefl b (hs ▸ ha)
        simp [ha, UInt8.lt_asymm ha, hu]

theorem strcmp_lt : strcmp left right = .lt ↔ left < right := strcmp_spec.1

theorem strcmp_eq : strcmp left right = .eq ↔ left = right := strcmp_spec.2

theorem strcmp_gt : strcmp left right = .gt ↔ right < left := by
  cases ho : strcmp left right with
  | lt =>
    have hb := strcmp_lt.mp ho
    simp [List.lt_asymm hb]
  | eq =>
    rw [strcmp_eq.mp ho]
    simp [List.lt_irrefl]
  | gt =>
    have ha : ¬left < right := fun hb => by rw [strcmp_lt.mpr hb] at ho; cases ho
    have hu : left ≠ right := fun hs => by rw [strcmp_eq.mpr hs] at ho; cases ho
    have hbe : right ≤ left := not_lex_lt.mp ha
    simp only [true_iff]
    exact Classical.byContradiction fun hb =>
      hu (List.le_antisymm (List.not_lex_lt.mp hb) hbe)

def IsDigit (c : UInt8) : Prop := 48 ≤ c ∧ c ≤ 57

instance (c : UInt8) : Decidable (IsDigit c) := inferInstanceAs (Decidable (_ ∧ _))

def digit (n : ℕ) : UInt8 := UInt8.ofNat (48 + n % 10)

/-- The digits of a number in front of a text. -/
def digitsBefore : ℕ → ℕ → Bytes → Bytes
  | 0, _, text => text
  | fuel + 1, n, text =>
    if n < 10 then digit n :: text else digitsBefore fuel (n / 10) (digit n :: text)

def decimal (n : ℕ) : Bytes := digitsBefore (n + 1) n []

def decimalValueFrom (start : ℕ) (text : Bytes) : ℕ :=
  text.foldl (fun value c => value * 10 + (c.toNat - 48)) start

def decimalValue (text : Bytes) : ℕ := decimalValueFrom 0 text

/-- What the writer produces and the readers accept. -/
def Canonical (text : Bytes) : Prop :=
  text ≠ [] ∧ (∀ c ∈ text, IsDigit c) ∧ (text.length = 1 ∨ text.head? ≠ some 48)

theorem toNat_digit (n : ℕ) : (digit n).toNat = 48 + n % 10 := by
  rw [digit, toNat_ofNat']
  omega

theorem isDigit_iff (c : UInt8) : IsDigit c ↔ 48 ≤ c.toNat ∧ c.toNat ≤ 57 := by
  simp [IsDigit, le_iff_toNat_le]

theorem isDigit_digit (n : ℕ) : IsDigit (digit n) := by
  rw [isDigit_iff, toNat_digit]
  omega

theorem digitsBefore_append (f n : ℕ) (text : Bytes) :
    digitsBefore f n text = digitsBefore f n [] ++ text := by
  induction f generalizing n text with
  | zero => rfl
  | succ f ih =>
    unfold digitsBefore
    split
    · rfl
    · rw [ih (n / 10) (digit n :: text), ih (n / 10) [digit n], append_assoc]
      rfl

variable {n : ℕ}

theorem digitsBefore_fuel {fuel : ℕ} (he : n < fuel) : digitsBefore fuel n [] = decimal n := by
  induction n using Nat.strongRecOn generalizing fuel with
  | ind n ih =>
    obtain ⟨rest, rfl⟩ := Nat.exists_eq_succ_of_ne_zero (Nat.ne_zero_of_lt he)
    unfold decimal digitsBefore
    split
    · rfl
    · have hs : n / 10 < n := by omega
      rw [digitsBefore_append, digitsBefore_append n, ih (n / 10) hs (by omega),
        ih (n / 10) hs (by omega)]

theorem decimal_eq (n : ℕ) :
    decimal n = if n < 10 then [digit n] else decimal (n / 10) ++ [digit n] := by
  rw [decimal, digitsBefore]
  split
  · rfl
  · rw [digitsBefore_append, digitsBefore_fuel (show n / 10 < n by omega)]

theorem decimalValueFrom_append (s : ℕ) (f back : Bytes) :
    decimalValueFrom s (f ++ back) = decimalValueFrom (decimalValueFrom s f) back :=
  foldl_append

theorem decimalValue_decimal (n : ℕ) : decimalValue (decimal n) = n := by
  induction n using Nat.strongRecOn with
  | ind n ih =>
    rw [decimal_eq]
    split
    · simp only [decimalValue, decimalValueFrom, foldl_cons, foldl_nil, toNat_digit]
      omega
    have hf := ih (n / 10) (by omega)
    rw [decimalValue] at hf
    rw [decimalValue, decimalValueFrom_append, hf]
    simp only [decimalValueFrom, foldl_cons, foldl_nil, toNat_digit]
    omega

theorem decimal_digits (n : ℕ) : ∀ c ∈ decimal n, IsDigit c := by
  induction n using Nat.strongRecOn with
  | ind n ih =>
    rw [decimal_eq]
    intro c hi
    split at hi
    · rw [mem_singleton.mp hi]
      exact isDigit_digit n
    rcases mem_append.mp hi with hf | hl
    · exact ih (n / 10) (by omega) c hf
    · rw [mem_singleton.mp hl]
      exact isDigit_digit n

theorem decimal_ne_nil (n : ℕ) : decimal n ≠ [] := by
  rw [decimal_eq]
  split
  · exact cons_ne_nil _ _
  · exact append_ne_nil_of_right_ne_nil _ (cons_ne_nil _ _)

theorem decimal_head (hp : 0 < n) : (decimal n).head? ≠ some 48 := by
  induction n using Nat.strongRecOn with
  | ind n ih =>
    rw [decimal_eq]
    split
    · intro hz
      have hc := congrArg UInt8.toNat (Option.some.inj hz)
      rw [toNat_digit] at hc
      change _ = 48 at hc
      omega
    obtain ⟨first, rest, hf⟩ := exists_cons_of_ne_nil (decimal_ne_nil (n / 10))
    have hh := ih (n / 10) (by omega) (by omega)
    rw [hf] at hh ⊢
    exact hh

theorem canonical_decimal (n : ℕ) : Canonical (decimal n) := by
  refine ⟨decimal_ne_nil n, decimal_digits n, ?_⟩
  rcases Nat.eq_zero_or_pos n with rfl | hp
  · exact Or.inl rfl
  · exact Or.inr (decimal_head hp)

/-- A canonical text is the decimal form of its value. -/
theorem decimal_decimalValue {text : Bytes} (hc : Canonical text) :
    decimal (decimalValue text) = text := by
  induction text using reverseRecOn with
  | nil => exact absurd rfl hc.1
  | append_singleton f c ih =>
    obtain ⟨hn, hd, hh⟩ := hc
    have hb := (isDigit_iff c).mp (hd c (by simp))
    have hv : decimalValue (f ++ [c]) = decimalValue f * 10 + (c.toNat - 48) := by
      simp [decimalValue, decimalValueFrom]
    have hg (n : ℕ) : digit (n * 10 + (c.toNat - 48)) = c := by
      rw [← UInt8.toNat_inj, toNat_digit]
      omega
    rw [hv, decimal_eq]
    cases f with
    | nil => rw [if_pos (by simp [decimalValue, decimalValueFrom]; omega), hg, nil_append]
    | cons d f =>
      have hr : d ≠ 48 := by simpa using hh
      have hf := ih ⟨cons_ne_nil _ _, fun c hi => hd c (mem_append_left _ hi), .inr (by simpa)⟩
      have hz : decimalValue (d :: f) ≠ 0 := by
        intro hz
        rw [hz] at hf
        exact hr (cons.inj hf).1.symm
      rw [if_neg (by omega), hg, show (decimalValue (d :: f) * 10 + (c.toNat - 48)) / 10 =
        decimalValue (d :: f) by omega, hf]

theorem decimal_length_le {k : ℕ} (hs : n < 10 ^ (k + 1)) : (decimal n).length ≤ k + 1 := by
  induction k generalizing n with
  | zero =>
    rw [decimal_eq, if_pos (by omega)]
    exact Nat.le_refl 1
  | succ k ih =>
    rw [decimal_eq]
    split
    · exact succ_le_succ (zero_le _)
    · have hf := ih (show n / 10 < 10 ^ (k + 1) by omega)
      rw [length_append, length_singleton]
      omega

end VitaDebugger.AsciiText
