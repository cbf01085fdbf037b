import Mathlib.Data.Nat.Notation

/-! Binary search by comparing the sought value with the elements of an ordered sequence. -/

namespace VitaDebugger.BinarySearch

/-- `compare i` compares the sought value with element `i`. -/
def search (compare : ℕ → Ordering) : ℕ → ℕ → ℕ → Option ℕ
  | 0, _, _ => none
  | fuel + 1, low, high =>
    if low < high then
      let middle := low + (high - low) / 2
      match compare middle with
      | .eq => some middle
      | .lt => search compare fuel low middle
      | .gt => search compare fuel (middle + 1) high
    else none

variable {c : ℕ → Ordering} {fuel low high : ℕ}

theorem search_found {p : ℕ} (he : high - low < fuel) (hf : low ≤ p)
    (hls : p < high) (hfo : c p = .eq)
    (ha : ∀ i < p, c i = .gt) (hb : ∀ i, p < i → i < high → c i = .lt) :
    search c fuel low high = some p := by
  induction fuel generalizing low high with
  | zero => omega
  | succ fuel ih =>
    have hi : low < high := by omega
    simp only [search, hi, if_true]
    rcases Nat.lt_trichotomy (low + (high - low) / 2) p with hl | hs | hr
    · rw [ha _ hl]
      exact ih (by omega) hl hls hb
    · rw [hs, hfo]
    · rw [hb _ hr (by omega)]
      exact ih (by omega) hf hr fun i hla hbo => hb i hla (by omega)

theorem search_sound {p : ℕ} (hs : search c fuel low high = some p) : c p = .eq := by
  induction fuel generalizing low high with
  | zero => cases hs
  | succ fuel ih =>
    unfold search at hs
    dsimp only at hs
    split at hs
    · split at hs
      · cases hs
        assumption
      · exact ih hs
      · exact ih hs
    · cases hs

end VitaDebugger.BinarySearch
