import VitaDebugger.AtomicProgram
import VitaDebugger.SpanMemory

/-! A record beside a memory, and calls that try to restore its span one after the other. Until
one of them succeeds the record stays as it is. -/

namespace VitaDebugger.RestoreRuns
open AtomicProgram SpanMemory

variable {σ ω α β ρ : Type} (record : σ → ρ) (mem : σ → ℕ → β)

/-- Later calls on one record; in between, `others` may move memory. -/
def Retried (calls : Prog σ ω α → Prop) (others : (ℕ → β) → (ℕ → β) → Prop) :
    σ → List α → σ → Prop :=
  Prog.Repeats calls fun s s' => record s' = record s ∧ others (mem s) (mem s')

/-- Other writers stay inside the span. -/
def Inside (others : (ℕ → β) → (ℕ → β) → Prop) (address size : ℕ) : Prop :=
  ∀ before after, others before after → AgreeOff address size before after

/-- A call that writes the span only, and leaves the record unless it answers `done`. -/
def Restores (address size : ℕ) (done : α) (through : σ → Prop) (p : Prog σ ω α) (s : σ) : Prop :=
  p.wp (fun a t => AgreeOff address size (mem s) (mem t) ∧ (a ≠ done → record t = record s) ∧
    (a = done → through t)) s

variable {record mem} {calls : Prog σ ω α → Prop} {others : (ℕ → β) → (ℕ → β) → Prop}
  {address size : ℕ} {done : α} {through : σ → Prop} {s u : σ} {results : List α}

/-- The record is as it was, and so is memory off the span if nobody else writes there. -/
theorem Retried.kept (run : Retried record mem calls others s results u)
    (step : ∀ p, calls p → ∀ t, record t = record s →
      Restores record mem address size done through p t) (none : done ∉ results) :
    record u = record s ∧ (Inside others address size → AgreeOff address size (mem s) (mem u)) := by
  refine Prog.Repeats.until (I := fun u => record u = record s ∧
    (Inside others address size → AgreeOff address size (mem s) (mem u))) run ?_ ?_
    ⟨rfl, fun _ => .refl _ _ _⟩ none
  · rintro t t' ⟨same, moved⟩ ⟨kept, off⟩
    exact ⟨same.trans kept, fun inside => (off inside).trans (inside _ _ moved)⟩
  · rintro p called t ⟨kept, off⟩
    apply (step p called t kept).mono
    rintro a t' ⟨within, failed, -⟩ other
    exact ⟨(failed other).trans kept, fun inside => (off inside).trans within⟩

theorem Retried.restored (run : Retried record mem calls others s (results ++ [done]) u)
    (step : ∀ p, calls p → ∀ t, record t = record s →
      Restores record mem address size done through p t) (none : done ∉ results) :
    through u ∧ (Inside others address size → AgreeOff address size (mem s) (mem u)) := by
  obtain ⟨p, t, t', before, ⟨same, moved⟩, called, ends⟩ := Prog.Repeats.last run
  obtain ⟨kept, off⟩ := Retried.kept before step none
  obtain ⟨within, -, answered⟩ := ends.post (step p called t' (same.trans kept))
  exact ⟨answered rfl, fun inside => ((off inside).trans (inside _ _ moved)).trans within⟩

end VitaDebugger.RestoreRuns
