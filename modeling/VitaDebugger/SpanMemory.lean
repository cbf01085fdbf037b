import Mathlib.Data.List.GetD
import Mathlib.Data.List.Range

/-! Memories as total functions from addresses, and the spans of them that a
loader or a store touches. Bytes are an arbitrary type. -/

namespace VitaDebugger.SpanMemory
open List
variable {β : Type}

def InSpan (start size a : ℕ) : Prop := start ≤ a ∧ a < start + size

instance (start size a : ℕ) : Decidable (InSpan start size a) := inferInstanceAs (Decidable (_ ∧ _))

def load (mem : ℕ → β) (start size : ℕ) : List β := (List.range size).map fun i => mem (start + i)

@[simp] theorem load_length (mem : ℕ → β) (start size : ℕ) :
    (load mem start size).length = size := by simp [load]

@[simp] theorem load_zero (mem : ℕ → β) (start : ℕ) : load mem start 0 = [] := rfl

theorem load_getElem (mem : ℕ → β) (start size i : ℕ) (h : i < (load mem start size).length) :
    (load mem start size)[i] = mem (start + i) := by simp [load]

variable {mem mem' : ℕ → β} {start size : ℕ}

theorem load_eq_load_iff :
    load mem start size = load mem' start size ↔ ∀ a, InSpan start size a → mem a = mem' a := by
  constructor
  · intro hs a hin
    have he := congrArg (fun bs => bs[a - start]?) hs
    have hp : a - start < size := by have := hin.1; have := hin.2; omega
    have ha : start + (a - start) = a := by have := hin.1; omega
    simpa [load, hp, ha] using he
  intro hs
  apply map_congr_left
  intro i hi
  exact hs _ ⟨by omega, by have := mem_range.mp hi; omega⟩

theorem load_add (mem : ℕ → β) (start n m : ℕ) :
    load mem start (n + m) = load mem start n ++ load mem (start + n) m := by
  simp only [load, range_add, map_append, map_map]
  simp [Nat.add_assoc]

def store (mem : ℕ → β) (start : ℕ) (data : List β) : ℕ → β := fun a =>
  if InSpan start data.length a then data.getD (a - start) (mem a) else mem a

@[simp] theorem store_outside (mem : ℕ → β) (start : ℕ) (data : List β) (a : ℕ)
    (h : ¬InSpan start data.length a) : store mem start data a = mem a := if_neg h

/-- Two memories that differ at most inside one span. -/
def AgreeOff (start size : ℕ) (mem mem' : ℕ → β) : Prop :=
  ∀ a, ¬InSpan start size a → mem' a = mem a

theorem AgreeOff.refl (start size : ℕ) (mem : ℕ → β) : AgreeOff start size mem mem := fun _ _ => rfl

theorem AgreeOff.trans {m₁ m₂ m₃ : ℕ → β} (hf : AgreeOff start size m₁ m₂)
    (hs : AgreeOff start size m₂ m₃) : AgreeOff start size m₁ m₃ :=
  fun a ho => (hs a ho).trans (hf a ho)

theorem store_agreeOff (mem : ℕ → β) (start : ℕ) (data : List β) :
    AgreeOff start data.length mem (store mem start data) := store_outside mem start data

theorem AgreeOff.eq_of_load (off : AgreeOff start size mem mem')
    (hs : load mem' start size = load mem start size) : mem' = mem := by
  funext a
  by_cases hi : InSpan start size a
  · exact load_eq_load_iff.mp hs a hi
  · exact off a hi

theorem AgreeOff.load_eq {s n t m : ℕ} (off : AgreeOff s n mem mem')
    (ha : ∀ a, InSpan t m a → ¬InSpan s n a) : load mem' t m = load mem t m :=
  load_eq_load_iff.mpr fun a hi => off a (ha a hi)

theorem load_store (mem : ℕ → β) (start : ℕ) (data : List β) :
    load (store mem start data) start data.length = data := by
  apply ext_getElem (by simp)
  intro i h₁ h₂
  have hi : InSpan start data.length (start + i) := ⟨by omega, by omega⟩
  rw [load_getElem, store, if_pos hi]
  simp [getD_eq_getElem?_getD, h₂]

/-- One memory inside a span, another outside it. -/
def splice (start size : ℕ) (inside outside : ℕ → β) : ℕ → β := fun a =>
  if InSpan start size a then inside a else outside a

theorem splice_agreeOff (start size : ℕ) (i o : ℕ → β) :
    AgreeOff start size o (splice start size i o) := fun _ h => if_neg h

theorem splice_eq_of_load {i o : ℕ → β} (off : AgreeOff start size mem o)
    (hs : load i start size = load mem start size) :
    splice start size i o = mem := by
  funext a
  by_cases hw : InSpan start size a
  · rw [splice, if_pos hw, load_eq_load_iff.mp hs a hw]
  · rw [splice, if_neg hw, off a hw]

theorem splice_eq_store {d : List β} {i : ℕ → β}
    (hs : load i start d.length = d) :
    splice start d.length i mem = store mem start d := by
  apply splice_eq_of_load
  · exact fun a ho => (store_outside mem start d a ho).symm
  · rw [hs, load_store]

end VitaDebugger.SpanMemory
