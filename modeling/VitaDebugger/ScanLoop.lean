import Mathlib.Data.Nat.Notation

/-! A loop that takes its input apart from the front. A round fails, stops with what is
left, or takes a first part of the input into the state. -/

namespace VitaDebugger.ScanLoop
variable {σ τ β ε δ : Type}

def loop (round : σ → List β → Except ε (Option (σ × List β))) :
    ℕ → σ → List β → Except ε (σ × List β)
  | 0, s, input => .ok (s, input)
  | fuel + 1, s, input =>
    match round s input with
    | .error e => .error e
    | .ok none => .ok (s, input)
    | .ok (some (s', rest)) => loop round fuel s' rest

def scan (round : σ → List β → Except ε (Option (σ × List β))) (s : σ) (input : List β) :
    Except ε (σ × List β) :=
  loop round (input.length + 1) s input

/-- Every round that goes on leaves less input. -/
def Shrinks (round : σ → List β → Except ε (Option (σ × List β))) : Prop :=
  ∀ s input s' rest, round s input = .ok (some (s', rest)) → rest.length < input.length

section Shrinks
variable {r : σ → List β → Except ε (Option (σ × List β))} {s s' : σ} {i rest : List β}

theorem loop_fuel (hs : Shrinks r) (n m : ℕ) (s : σ) (i : List β)
    (hn : i.length < n) (hm : i.length < m) : loop r n s i = loop r m s i := by
  induction n generalizing m s i with
  | zero => omega
  | succ n ih =>
    cases m with
    | zero => omega
    | succ m =>
      rw [loop, loop]
      cases ho : r s i with
      | error e => rfl
      | ok next =>
        cases next with
        | none => rfl
        | some p =>
          have hsh := hs s i p.1 p.2 ho
          exact ih m p.1 p.2 (by omega) (by omega)

theorem scan_error {e : ε} (ho : r s i = .error e) : scan r s i = .error e := by
  rw [scan, loop, ho]

theorem scan_stop (ho : r s i = .ok none) : scan r s i = .ok (s, i) := by
  rw [scan, loop, ho]

theorem scan_next (hs : Shrinks r) (ho : r s i = .ok (some (s', rest))) :
    scan r s i = scan r s' rest := by
  have hsh := hs s i s' rest ho
  rw [scan, loop, ho]
  exact loop_fuel hs _ _ s' rest hsh (Nat.lt_succ_self _)

theorem scan_keeps {P : σ → Prop} (hst : P s)
    (hk : ∀ s i s' rest, P s → r s i = .ok (some (s', rest)) → P s')
    (hs : scan r s i = .ok (s', rest)) : P s' := by
  unfold scan at hs
  generalize i.length + 1 = fuel at hs
  induction fuel generalizing s i with
  | zero =>
    cases hs
    exact hst
  | succ fuel ih =>
    rw [loop] at hs
    cases ho : r s i with
    | error e =>
      rw [ho] at hs
      cases hs
    | ok next =>
      rw [ho] at hs
      cases next with
      | none =>
        cases hs
        exact hst
      | some pair => exact ih (hk s i pair.1 pair.2 hst ho) hs

/-- The rounds of a loop that ends, from the last one back to the first. -/
theorem scan_rounds {P : σ → List β → Prop} (hsh : Shrinks r)
    (hl : r s' rest = .ok none → P s' rest)
    (hb : ∀ s i next rest, r s i = .ok (some (next, rest)) → P next rest → P s i)
    (hs : scan r s i = .ok (s', rest)) : P s i := by
  -- by induction on the length of the input that is left
  induction length : i.length using Nat.strongRecOn generalizing s i with
  | ind n ih =>
    cases ho : r s i with
    | error e =>
      rw [scan_error ho] at hs
      cases hs
    | ok next =>
      cases next with
      | none =>
        rw [scan_stop ho] at hs
        cases hs
        exact hl ho
      | some p =>
        rw [scan_next hsh ho] at hs
        have hso := hsh s i p.1 p.2 ho
        exact hb s i p.1 p.2 ho (ih p.2.length (length ▸ hso) hs rfl)

theorem scan_stopped (hsh : Shrinks r) (hs : scan r s i = .ok (s', rest)) : r s' rest = .ok none :=
  scan_rounds (P := fun _ _ => _) hsh id (fun _ _ _ _ _ hst => hst) hs

end Shrinks

/-- The input is a sequence of frames, each at the front of what the one before leaves. -/
inductive Frames {χ : Type} (frame : List β → χ → List β → Prop) : List β → List χ → Prop
  | done : Frames frame [] []
  | next {input rest : List β} {c : χ} {cs : List χ} (first : frame input c rest)
      (others : Frames frame rest cs) : Frames frame input (c :: cs)

/-- A loop whose rounds take a frame each consumes its input exactly when the input is a
sequence of frames that the state takes one after the other. -/
theorem scan_frames {χ : Type} {round : σ → List β → Except ε (Option (σ × List β))}
    {frame : List β → χ → List β → Prop} {t : σ → χ → Except ε σ} (hs : Shrinks round)
    (hst : ∀ s, round s [] = .ok none)
    (hm : ∀ s inp s' rest, round s inp = .ok (some (s', rest)) ↔
      ∃ c, frame inp c rest ∧ t s c = .ok s') (s s' : σ) (inp : List β) :
    scan round s inp = .ok (s', []) ↔ ∃ cs, Frames frame inp cs ∧ cs.foldlM t s = .ok s' := by
  constructor
  · refine scan_rounds (P := fun s inp => ∃ cs, Frames frame inp cs ∧ cs.foldlM t s = _) hs
      (fun _ => ⟨[], .done, rfl⟩) fun s inp next rest ho ⟨cs, hot, all⟩ => ?_
    obtain ⟨c, hf, ht⟩ := (hm s inp next rest).mp ho
    refine ⟨c :: cs, .next hf hot, ?_⟩
    rw [List.foldlM_cons, ht]
    exact all
  rintro ⟨cs, hfr, all⟩
  induction hfr generalizing s with
  | done =>
    cases all
    exact scan_stop (hst s')
  | next hf hot ih =>
    rename_i inp rest c cs
    rw [List.foldlM_cons] at all
    cases ht : t s c with
    | error e =>
      rw [ht] at all
      cases all
    | ok f =>
      rw [ht] at all
      have ho := (hm s inp f rest).mpr ⟨c, hf, ht⟩
      rw [scan_next hs ho]
      exact ih f all

end VitaDebugger.ScanLoop
