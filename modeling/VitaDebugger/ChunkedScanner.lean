import Mathlib.Data.List.Basic

/-! A receive loop over an incremental scanner. The scanner looks at the bytes
buffered so far and waits, takes a first part of them, or gives up. The loop
feeds it reads of any size; for a lawful scanner its output depends only on the
concatenation of the reads. -/

namespace VitaDebugger.ChunkedScanner
open List
variable {β ε : Type}

inductive Scan (β ε : Type) where
  | wait
  | take (event : Option ε) (rest : List β)
  | fail

/-- Scan the buffer until the scanner waits, then append the next read. -/
def receive (scan : List β → Scan β ε) : ℕ → List β → List (List β) → Option (List ε × List β)
  | 0, _, _ => none
  | fuel + 1, buffer, reads =>
    match scan buffer with
    | .fail => none
    | .take event rest =>
      (receive scan fuel rest reads).map fun out => (event.toList ++ out.1, out.2)
    | .wait =>
      match reads with
      | [] => some ([], buffer)
      | read :: reads => receive scan fuel (buffer ++ read) reads

def drain (scan : List β → Scan β ε) : ℕ → List β → List ε × List β
  | 0, buffer => ([], buffer)
  | fuel + 1, buffer =>
    match scan buffer with
    | .take event rest => (event.toList ++ (drain scan fuel rest).1, (drain scan fuel rest).2)
    | _ => ([], buffer)

/-- The events of a whole stream, and what is left of it. -/
def drainAll (scan : List β → Scan β ε) (buffer : List β) : List ε × List β :=
  drain scan buffer.length buffer

/-- A taken part does not depend on what follows. The one exception is a silent
take of the whole buffer, which may end earlier than the take of a longer one. -/
structure Lawful (scan : List β → Scan β ε) : Prop where
  safe : ∀ a, scan a ≠ .fail
  nil : scan [] = .wait
  shrinks : ∀ a event rest, scan a = .take event rest → rest.length < a.length
  stable : ∀ a event rest b, scan a = .take event rest →
    scan (a ++ b) = .take event (rest ++ b) ∨
      (event = none ∧ rest = [] ∧ ∃ rest', scan (a ++ b) = .take none rest' ∧
        (rest' = b ∨ scan b = .take none rest'))

variable {a : List β}

section Lawful
variable {scan : List β → Scan β ε} (l : Lawful scan)
include l

theorem drain_fuel (n m : ℕ) (a : List β) (hn : a.length ≤ n) (hm : a.length ≤ m) :
    drain scan n a = drain scan m a := by
  induction n generalizing m a with
  | zero =>
    have he : a = [] := eq_nil_of_length_eq_zero (Nat.le_zero.mp hn)
    cases m <;> simp [drain, he, l.nil]
  | succ n ih =>
    cases m with
    | zero =>
      have he : a = [] := eq_nil_of_length_eq_zero (Nat.le_zero.mp hm)
      simp [drain, he, l.nil]
    | succ m =>
      rw [drain, drain]
      cases ho : scan a with
      | wait => rfl
      | fail => rfl
      | take e rest =>
        have hs := l.shrinks a e rest ho
        simp only [ih m rest (by omega) (by omega)]

theorem drainAll_take {e : Option ε} {r : List β} (ho : scan a = .take e r) :
    drainAll scan a = (e.toList ++ (drainAll scan r).1, (drainAll scan r).2) := by
  have hsh := l.shrinks a e r ho
  obtain ⟨n, hs⟩ : ∃ n, a.length = n + 1 := ⟨a.length - 1, by omega⟩
  simp only [drainAll, hs, drain, ho]
  rw [drain_fuel l n r.length r (by omega) (Nat.le_refl _)]

omit l in
theorem drainAll_wait (ho : scan a = .wait) : drainAll scan a = ([], a) := by
  rw [drainAll]
  cases a.length <;> simp [drain, ho]

theorem drainAll_append {e : Option ε} {r : List β} (b : List β)
    (ho : scan a = .take e r) : drainAll scan (a ++ b) =
      (e.toList ++ (drainAll scan (r ++ b)).1, (drainAll scan (r ++ b)).2) := by
  rcases l.stable a e r b ho with hs | ⟨rfl, rfl, rest', hl, he⟩
  · exact drainAll_take l hs
  rw [drainAll_take l hl]
  rcases he with rfl | hh
  · rfl
  · rw [nil_append, drainAll_take l hh]
    rfl

theorem receive_eq (f : ℕ) (b : List β) (rs : List (List β))
    (he : b.length + rs.flatten.length + rs.length < f) :
    receive scan f b rs = some (drainAll scan (b ++ rs.flatten)) := by
  induction f generalizing b rs with
  | zero => omega
  | succ f ih =>
    cases ho : scan b with
    | fail => exact (l.safe b ho).elim
    | take e rest =>
      have hs := l.shrinks b e rest ho
      simp only [receive, ho, ih rest rs (by omega), Option.map_some,
        drainAll_append l rs.flatten ho]
    | wait =>
      cases rs with
      | nil => simp [receive, ho, drainAll_wait ho]
      | cons read rs =>
        simp only [flatten_cons, length_append, length_cons] at he
        simp only [receive, ho, ih (b ++ read) rs (by rw [length_append]; omega),
          flatten_cons, append_assoc]

end Lawful
end VitaDebugger.ChunkedScanner
