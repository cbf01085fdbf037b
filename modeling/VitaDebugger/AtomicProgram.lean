import Mathlib.Data.Nat.Notation
import Mathlib.Logic.Function.Basic

/-! Sequential programs as finite trees of atomic actions. An action sees the
current state and one answer of the environment, updates the state and selects
the rest of the program. A tree is finite, so every run ends; the answers are
unconstrained, so a statement about all of them covers every failure pattern. -/

namespace VitaDebugger.AtomicProgram
open List

inductive Prog (σ ω α : Type) where
  | ret (value : α)
  | act (update : σ → ω → σ) (next : σ → ω → Prog σ ω α)

namespace Prog
variable {σ τ ω ω' α β : Type}

protected def bind : Prog σ ω α → (α → Prog σ ω β) → Prog σ ω β
  | .ret a, f => f a
  | .act u n, f => .act u fun s w => (n s w).bind f

instance : Monad (Prog σ ω) where
  pure := Prog.ret
  bind := Prog.bind

/-- One atomic action that answers and updates the state together. -/
def perform (f : σ → ω → α × σ) : Prog σ ω α :=
  .act (fun s w => (f s w).2) fun s w => .ret (f s w).1

def read (f : σ → α) : Prog σ ω α := perform fun s _ => (f s, s)

def modify (f : σ → σ) : Prog σ ω Unit := perform fun s _ => ((), f s)

/-- An answer of the environment that leaves the state alone. -/
def ask (f : ω → α) : Prog σ ω α := perform fun s w => (f w, s)

/-- `Ends p s a t`: some answers lead `p` from `s` to the value `a` in `t`. -/
inductive Ends : Prog σ ω α → σ → α → σ → Prop
  | ret (a : α) (s : σ) : Ends (.ret a) s a s
  | act {u : σ → ω → σ} {n : σ → ω → Prog σ ω α} {s t : σ} {a : α} (w : ω)
      (rest : Ends (n s w) (u s w) a t) : Ends (.act u n) s a t

/-- Every run of `p` from `s` ends in a value and state that satisfy `Q`. -/
def wp : Prog σ ω α → (α → σ → Prop) → σ → Prop
  | .ret a, Q, s => Q a s
  | .act u n, Q, s => ∀ w, wp (n s w) Q (u s w)

/-- Evaluation against a listed script of answers; the unread rest is returned. -/
def exec : Prog σ ω α → List ω → σ → Option (α × σ × List ω)
  | .ret a, script, s => some (a, s, script)
  | .act _ _, [], _ => none
  | .act u n, w :: script, s => (n s w).exec script (u s w)

@[simp] theorem wp_ret (a : α) (Q : α → σ → Prop) (s : σ) :
    wp (.ret a : Prog σ ω α) Q s ↔ Q a s := Iff.rfl

@[simp] theorem wp_pure (a : α) (Q : α → σ → Prop) (s : σ) :
    wp (pure a : Prog σ ω α) Q s ↔ Q a s := Iff.rfl

@[simp] theorem wp_bind (p : Prog σ ω α) (f : α → Prog σ ω β) (Q : β → σ → Prop) (s : σ) :
    wp (p >>= f) Q s ↔ wp p (fun a t => wp (f a) Q t) s := by
  induction p generalizing s with
  | ret a => rfl
  | act u n ih => exact forall_congr' fun w => ih s w (u s w)

@[simp] theorem wp_perform (f : σ → ω → α × σ) (Q : α → σ → Prop) (s : σ) :
    wp (perform f) Q s ↔ ∀ w, Q (f s w).1 (f s w).2 := Iff.rfl

@[simp] theorem wp_read [Nonempty ω] (f : σ → α) (Q : α → σ → Prop) (s : σ) :
    wp (read f : Prog σ ω α) Q s ↔ Q (f s) s := forall_const ω

@[simp] theorem wp_modify [Nonempty ω] (f : σ → σ) (Q : Unit → σ → Prop) (s : σ) :
    wp (modify f : Prog σ ω Unit) Q s ↔ Q () (f s) := forall_const ω

@[simp] theorem wp_ask (f : ω → α) (Q : α → σ → Prop) (s : σ) :
    wp (ask f : Prog σ ω α) Q s ↔ ∀ w, Q (f w) s := Iff.rfl

variable {p : Prog σ ω α} {s : σ} {Q : α → σ → Prop}

theorem wp.mono {p : Prog σ ω α} {Q R : α → σ → Prop} {s : σ}
    (h : wp p Q s) (imp : ∀ a t, Q a t → R a t) : wp p R s := by
  induction p generalizing s with
  | ret a => exact imp a s h
  | act u n ih => exact fun w => ih s w (h w)

theorem wp_ite (c : Prop) [Decidable c] (p q : Prog σ ω α) (Q : α → σ → Prop) (s : σ) :
    wp (if c then p else q) Q s ↔ (c → wp p Q s) ∧ (¬c → wp q Q s) := by
  by_cases h : c <;> simp [h]

theorem wp_of_forall (s : σ) (h : ∀ a t, Q a t) : wp p Q s := by
  induction p generalizing s with
  | ret a => exact h a s
  | act u n ih => exact fun w => ih s w (u s w)

theorem wp_and {R : α → σ → Prop} (hf : wp p Q s)
    (hs : wp p R s) : wp p (fun a t => Q a t ∧ R a t) s := by
  induction p generalizing s with
  | ret a => exact ⟨hf, hs⟩
  | act u n ih => exact fun w => ih s w (hf w) (hs w)

theorem wp_iff_ends (p : Prog σ ω α) (Q : α → σ → Prop) (s : σ) :
    wp p Q s ↔ ∀ a t, Ends p s a t → Q a t := by
  induction p generalizing s with
  | ret a =>
    constructor
    · rintro h _ _ ⟨⟩
      exact h
    · exact fun h => h a s (.ret a s)
  | act u n ih =>
    constructor
    · intro h a t run
      cases run with
      | act w hr => exact (ih s w (u s w)).mp (h w) a t hr
    · exact fun h w => (ih s w (u s w)).mpr fun a t hr => h a t (.act w hr)

theorem Ends.post {t : σ} {a : α} (run : Ends p s a t) (hs : wp p Q s) : Q a t :=
  (wp_iff_ends p Q s).mp hs a t run

theorem ends_of_exec {script rest : List ω} {t : σ} {a : α}
    (h : p.exec script s = some (a, t, rest)) : Ends p s a t := by
  induction p generalizing script s with
  | ret b =>
    simp only [exec, Option.some.injEq, Prod.mk.injEq] at h
    obtain ⟨rfl, rfl, -⟩ := h
    exact .ret b s
  | act u n ih =>
    cases script with
    | nil => simp [exec] at h
    | cons w script => exact .act w (ih s w h)

/-! The states a run passes. -/

/-- `Path p s states a t`: a run of `p` from `s` to the value `a` in `t` whose
actions leave the listed states, in order. -/
inductive Path : Prog σ ω α → σ → List σ → α → σ → Prop
  | ret (a : α) (s : σ) : Path (.ret a) s [] a s
  | act {u : σ → ω → σ} {n : σ → ω → Prog σ ω α} {s t : σ} {states : List σ} {a : α} (w : ω)
      (rest : Path (n s w) (u s w) states a t) : Path (.act u n) s (u s w :: states) a t

theorem Path.ends {t : σ} {ss : List σ} {a : α} (hp : Path p s ss a t) : Ends p s a t := by
  induction hp with
  | ret a s => exact .ret a s
  | act w _ ih => exact .act w ih

theorem Path.getLast {t : σ} {ss : List σ} {a : α}
    (hp : Path p s ss a t) : (s :: ss).getLast (cons_ne_nil s ss) = t := by
  induction hp with
  | ret a s => rfl
  | act w hr ih => rwa [getLast_cons (cons_ne_nil _ _)]

theorem Ends.path {t : σ} {a : α} (he : Ends p s a t) : ∃ ss, Path p s ss a t := by
  induction he with
  | ret a s => exact ⟨[], .ret a s⟩
  | act w _ ih =>
    obtain ⟨ss, hr⟩ := ih
    exact ⟨_, .act w hr⟩

theorem path_pure {a b : α} {t : σ} {ss : List σ} :
    Path (pure a : Prog σ ω α) s ss b t ↔ ss = [] ∧ b = a ∧ t = s := by
  constructor
  · rintro ⟨⟩
    exact ⟨rfl, rfl, rfl⟩
  · rintro ⟨rfl, rfl, rfl⟩
    exact .ret _ _

theorem path_bind {f : α → Prog σ ω β} {t : σ} {ss : List σ} {b : β} :
    Path (p >>= f) s ss b t ↔ ∃ first r a m, ss = first ++ r ∧
      Path p s first a m ∧ Path (f a) m r b t := by
  induction p generalizing s ss with
  | ret a =>
    refine ⟨fun hp => ⟨[], ss, a, s, rfl, .ret a s, hp⟩, ?_⟩
    rintro ⟨first, r, a', m, rfl, ⟨⟩, hp⟩
    exact hp
  | act u n ih =>
    constructor
    · intro hp
      cases hp with
      | act w hl =>
        obtain ⟨first, r, a, m, rfl, hb, ha⟩ := (ih s w).mp hl
        exact ⟨_ :: first, r, a, m, rfl, .act w hb, ha⟩
    · rintro ⟨first, r, a, m, rfl, hb, ha⟩
      cases hb with
      | act w hb => exact .act w ((ih s w).mpr ⟨_, r, a, m, rfl, hb, ha⟩)

theorem path_perform {f : σ → ω → α × σ} {t : σ} {ss : List σ} {a : α} :
    Path (perform f) s ss a t ↔ ∃ w, ss = [t] ∧ a = (f s w).1 ∧ t = (f s w).2 := by
  constructor
  · intro hp
    cases hp with
    | act w hr =>
      cases hr
      exact ⟨w, rfl, rfl, rfl⟩
  · rintro ⟨w, rfl, rfl, rfl⟩
    exact .act w (.ret _ _)

/-! Calls made one after another. -/

/-- Calls with their results in order. Before each of them `others` may move the
state. -/
inductive Repeats (calls : Prog σ ω α → Prop) (others : σ → σ → Prop) (s : σ) :
    List α → σ → Prop
  | start : Repeats calls others s [] s
  | call {results : List α} {a : α} {t t' u : σ} {p : Prog σ ω α}
      (before : Repeats calls others s results t) (moved : others t t') (called : calls p)
      (ends : Ends p t' a u) : Repeats calls others s (results ++ [a]) u

section Repeats
variable {calls : Prog σ ω α → Prop} {os : σ → σ → Prop} {I : σ → Prop} {s u : σ}
  {rs : List α} {a : α}

/-- What every call keeps unless it answers `a` holds until some call does. -/
theorem Repeats.until (run : Repeats calls os s rs u)
    (stable : ∀ t t', os t t' → I t → I t')
    (step : ∀ p, calls p → ∀ t, I t → p.wp (fun b t' => b ≠ a → I t') t) (start : I s)
    (none : a ∉ rs) : I u := by
  induction run with
  | start => exact start
  | call hb hm hc he ih =>
    simp only [mem_append, mem_singleton, not_or] at none
    exact he.post (step _ hc _ (stable _ _ hm (ih none.1))) (Ne.symm none.2)

theorem Repeats.last (run : Repeats calls os s (rs ++ [a]) u) :
    ∃ p t t', Repeats calls os s rs t ∧ os t t' ∧ calls p ∧ Ends p t' a u := by
  generalize hw : rs ++ [a] = all at run
  cases run with
  | start => simp at hw
  | call hb hm hc he =>
    obtain ⟨rfl, hl⟩ := append_inj' hw rfl
    cases hl
    exact ⟨_, _, _, hb, hm, hc, he⟩

end Repeats

/-! A program behind a lock, seen from outside as one action. -/

/-- Evaluation against an endless stream of answers. -/
def run : Prog σ ω α → (ℕ → ω) → σ → α × σ
  | .ret a, _, s => (a, s)
  | .act u n, answers, s => (n s (answers 0)).run (fun k => answers (k + 1)) (u s (answers 0))

@[simp] theorem run_pure (a : α) (ans : ℕ → ω) (s : σ) :
    (pure a : Prog σ ω α).run ans s = (a, s) := rfl

theorem run_perform_bind (f : σ → ω → α × σ) (g : α → Prog σ ω β) (ans : ℕ → ω) (s : σ) :
    (perform f >>= g).run ans s =
      (g (f s (ans 0)).1).run (fun k => ans (k + 1)) (f s (ans 0)).2 := rfl

theorem ends_run (p : Prog σ ω α) (ans : ℕ → ω) (s : σ) :
    Ends p s (p.run ans s).1 (p.run ans s).2 := by
  induction p generalizing ans s with
  | ret a => exact .ret a s
  | act u n ih => exact .act (ans 0) (ih s (ans 0) (fun k => ans (k + 1)) _)

/-- All of `p` without interference; one answer is a whole stream. -/
def atomically (p : Prog σ ω α) : Prog σ (ℕ → ω) α := perform fun s answers => p.run answers s

/-! A part of a larger state, with the answers the part's programs read. -/

structure Part (τ σ ω' ω : Type) where
  view : τ → σ
  put : τ → σ → τ
  answer : ω' → ω
  view_put : ∀ t s, view (put t s) = s
  put_put : ∀ t s s', put (put t s) s' = put t s'
  put_view : ∀ t, put t (view t) = t

def lift (part : Part τ σ ω' ω) : Prog σ ω α → Prog τ ω' α
  | .ret a => .ret a
  | .act u n => .act (fun t w => part.put t (u (part.view t) (part.answer w)))
      fun t w => (n (part.view t) (part.answer w)).lift part

theorem wp_lift (part : Part τ σ ω' ω) {Q : α → τ → Prop} {t : τ}
    (h : wp p (fun a s => Q a (part.put t s)) (part.view t)) : wp (p.lift part) Q t := by
  induction p generalizing t with
  | ret a =>
    change Q a (part.put t (part.view t)) at h
    rwa [part.put_view] at h
  | act u n ih =>
    intro w
    apply ih
    simpa only [part.view_put, part.put_put] using h (part.answer w)

/-! Invariants of whole programs. -/

/-- Every run of `p` from a state in `I` ends in `I`. -/
def Preserves (I : σ → Prop) (p : Prog σ ω α) : Prop := ∀ s, I s → wp p (fun _ t => I t) s

namespace Preserves
variable {I : σ → Prop}

theorem pure (a : α) : Preserves I (Pure.pure a : Prog σ ω α) := fun _ hh => hh

theorem bind {f : α → Prog σ ω β} (hf : Preserves I p)
    (hr : ∀ a, Preserves I (f a)) : Preserves I (p >>= f) := fun s hh =>
  (wp_bind p f _ s).mpr ((hf s hh).mono fun a t hk => hr a t hk)

theorem perform {f : σ → ω → α × σ} (hk : ∀ s w, I s → I (f s w).2) :
    Preserves I (Prog.perform f) := fun s hh w => hk s w hh

theorem read (f : σ → α) : Preserves I (Prog.read f : Prog σ ω α) := fun _ hh _ => hh

theorem ask (f : ω → α) : Preserves I (Prog.ask f : Prog σ ω α) := fun _ hh _ => hh

theorem modify {f : σ → σ} (hk : ∀ s, I s → I (f s)) :
    Preserves I (Prog.modify f : Prog σ ω Unit) := fun s hh _ => hk s hh

theorem ite {c : Prop} [Decidable c] {q : Prog σ ω α} (yes : Preserves I p)
    (no : Preserves I q) : Preserves I (if c then p else q) := by
  split
  · exact yes
  · exact no

theorem lift (part : Part τ σ ω' ω) {J : τ → Prop}
    (hk : ∀ t, J t → wp p (fun _ s => J (part.put t s)) (part.view t)) :
    Preserves J (p.lift part) := fun t hh => wp_lift part (hk t hh)

end Preserves
end Prog
end VitaDebugger.AtomicProgram
