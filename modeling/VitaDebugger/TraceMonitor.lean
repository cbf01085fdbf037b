import Mathlib.Data.List.Induction
import Mathlib.Data.Nat.Notation

/-! Monitors of event logs. A monitor folds the events it has read into a state and says
which events that state allows; a log is accepted when each of its events was allowed by what
came before it. -/

namespace VitaDebugger.TraceMonitor
open List

structure Monitor (ε μ : Type) where
  start : μ
  step : μ → ε → μ
  allows : μ → ε → Prop

namespace Monitor
variable {ε μ : Type} (M : Monitor ε μ)

def after (log : List ε) : μ := log.foldl M.step M.start

def Accepts (log : List ε) : Prop :=
  ∀ earlier event later, log = earlier ++ event :: later → M.allows (M.after earlier) event

@[simp] theorem after_append_singleton (log : List ε) (e : ε) :
    M.after (log ++ [e]) = M.step (M.after log) e := by
  simp [after]

variable {M}

theorem accepts_nil : M.Accepts [] := by
  intro earlier event later hs
  exact absurd hs.symm (append_ne_nil_of_right_ne_nil _ (cons_ne_nil _ _))

theorem Accepts.append_singleton {log : List ε} {e : ε} (ha : M.Accepts log)
    (hal : M.allows (M.after log) e) : M.Accepts (log ++ [e]) := by
  intro er next later hsp
  rcases append_eq_append_iff.mp hsp with ⟨m, rfl, hr⟩ | ⟨m, rfl, hr⟩
  · rcases singleton_eq_append_iff.mp hr with ⟨rfl, hs⟩ | ⟨rfl, hs⟩
    · cases hs
      rwa [append_nil]
    · cases hs
  cases m with
  | nil =>
    cases hr
    rwa [append_nil] at hal
  | cons first m =>
    obtain ⟨rfl, rfl⟩ := List.cons.inj hr
    exact ha er next m rfl

theorem Accepts.left {log l : List ε} (ha : M.Accepts (log ++ l)) : M.Accepts log := by
  intro e ev rest hs
  exact ha e ev (rest ++ l) (by rw [hs, append_assoc, cons_append])

theorem Accepts.last {log : List ε} {e : ε} (ha : M.Accepts (log ++ [e])) :
    M.allows (M.after log) e := ha log e [] rfl

theorem countP_le_one {p : ε → Bool} {log : List ε} (ha : M.Accepts log)
    (hf : ∀ b event, M.allows (M.after b) event → p event = true →
      ∀ e ∈ b, p e = false) : log.countP p ≤ 1 := by
  induction log using List.reverseRecOn with
  | nil => exact Nat.zero_le 1
  | append_singleton log event ih =>
    by_cases hk : p event = true
    · have hn : log.countP p = 0 := by
        rw [countP_eq_zero]
        intro e hm
        simp [hf log event ha.last hk e hm]
      simp [hn, hk]
    · simpa [countP_singleton, hk] using ih ha.left

theorem eq_of_kind {p : ε → Bool} {log : List ε} (ha : M.Accepts log)
    (hf : ∀ b event, M.allows (M.after b) event → p event = true →
      ∀ e ∈ b, p e = false) {left right : ε} (one : left ∈ log) (ho : right ∈ log)
    (hon : p left = true) (hok : p right = true) : left = right := by
  induction log using List.reverseRecOn with
  | nil => exact absurd one not_mem_nil
  | append_singleton log event ih =>
    rw [mem_append, mem_singleton] at one ho
    have hal (hk : p event = true) {e : ε} (hm : e ∈ log)
        (hek : p e = true) : False := by
      have hn := hf log event ha.last hk e hm
      rw [hn] at hek
      cases hek
    rcases one with one | rfl
    · rcases ho with ho | rfl
      · exact ih ha.left one ho
      · exact (hal hok one hon).elim
    · rcases ho with ho | rfl
      · exact (hal hon ho hok).elim
      · rfl

end Monitor
end VitaDebugger.TraceMonitor
