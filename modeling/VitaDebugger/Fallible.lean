import Mathlib.Logic.Basic

/-! Computations that fail with an error: what a successful sequence of them says. -/

namespace VitaDebugger.Fallible
variable {ε α β : Type}

/-- A check that ends a computation with its error. -/
def ensure (condition : Prop) [Decidable condition] (e : ε) : Except ε Unit :=
  if condition then .ok () else .error e

theorem ensure_ok {condition : Prop} [Decidable condition] {e : ε} {v : Unit} :
    ensure condition e = .ok v ↔ condition := by
  unfold ensure
  split <;> simp [*]

theorem bind_ok {f : Except ε α} {next : α → Except ε β} {r : β} :
    (f >>= next) = .ok r ↔ ∃ v, f = .ok v ∧ next v = .ok r := by
  cases f with
  | error e =>
    constructor
    · intro hi
      cases hi
    · rintro ⟨_, hi, _⟩
      cases hi
  | ok v =>
    constructor
    · exact fun run => ⟨v, rfl, run⟩
    · rintro ⟨_, hs, run⟩
      cases hs
      exact run

theorem toOption_some {run : Except ε α} {v : α} : run.toOption = some v ↔ run = .ok v := by
  cases run <;> simp [Except.toOption]

theorem forM_ok {c : α → Except ε Unit} {its : List α} :
    its.forM c = .ok () ↔ ∀ item ∈ its, c item = .ok () := by
  induction its with
  | nil => simp [List.forM, pure, Except.pure]
  | cons item rest ih =>
    rw [List.forM_eq_forM, List.forM_cons, bind_ok, List.forall_mem_cons, ← ih]
    exact ⟨fun ⟨_, hh, ht⟩ => ⟨hh, ht⟩, fun ⟨hh, ht⟩ => ⟨_, hh, ht⟩⟩

end VitaDebugger.Fallible
