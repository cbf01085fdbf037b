import Mathlib.Data.List.Chain
import VitaDebugger.AtomicProgram

/-! Programs of several threads over one shared state. Between two actions of a
thread the others may act as its rely allows; each of its own actions keeps the
shared invariant and its guarantee. A single thread whose rely is equality is the
sequential case, where the invariant still covers every state between actions. -/

namespace VitaDebugger.RelyGuarantee
open AtomicProgram List Function

variable {ι σ ω α β : Type}

/-- What the threads promise each other as long as the run stays `within` its bounds.
`idle` holds between two calls of a thread. -/
structure Rules (ι σ : Type) where
  within : σ → Prop
  inv : σ → Prop
  rely : ι → σ → σ → Prop
  guarantee : ι → σ → σ → Prop
  idle : ι → σ → Prop
  refl : ∀ i s, rely i s s
  trans : ∀ i s t u, rely i s t → rely i t u → rely i s u
  compatible : ∀ i j s t, i ≠ j → inv s → inv t → guarantee i s t → rely j s t
  stable : ∀ i s t, rely i s t → idle i s → idle i t

variable {Q : α → σ → Prop} {f : σ → ω → α × σ} {p : Prog σ ω α} {s : σ}

namespace Rules
variable (rules : Rules ι σ) (i : ι)

/-- Thread `i` may run `p` from `s` under interference and ends in `Q`. -/
def Holds : Prog σ ω α → (α → σ → Prop) → σ → Prop
  | .ret a, Q, s => Q a s
  | .act u n, Q, s => ∀ t, rules.inv t → rules.rely i s t → ∀ w, rules.within (u t w) →
      rules.inv (u t w) ∧ rules.guarantee i t (u t w) ∧ Holds (n t w) Q (u t w)

variable {rules i}

@[simp] theorem holds_pure (a : α) (Q : α → σ → Prop) (s : σ) :
    rules.Holds i (pure a : Prog σ ω α) Q s ↔ Q a s := Iff.rfl

@[simp] theorem holds_bind (p : Prog σ ω α) (f : α → Prog σ ω β) (Q : β → σ → Prop) (s : σ) :
    rules.Holds i (p >>= f) Q s ↔ rules.Holds i p (fun a t => rules.Holds i (f a) Q t) s := by
  induction p generalizing s with
  | ret a => rfl
  | act u n ih =>
    refine forall_congr' fun t => forall_congr' fun _ => forall_congr' fun _ => forall_congr' ?_
    refine fun w => forall_congr' fun _ => and_congr_right fun _ => and_congr_right fun _ => ?_
    exact ih t w (u t w)

/-- Behind a lock the contract is owed only where the lock is given back. -/
theorem holds_atomically (h : ∀ t, rules.inv t → rules.rely i s t →
      p.wp (fun a u => rules.inv u ∧ rules.guarantee i t u ∧ Q a u) t) :
    rules.Holds i p.atomically Q s := fun t hk hm ans _ =>
  (Prog.ends_run p ans t).post (h t hk hm)

theorem holds_ite (c : Prop) [Decidable c] (p q : Prog σ ω α) (Q : α → σ → Prop) (s : σ) :
    rules.Holds i (if c then p else q) Q s ↔
      (c → rules.Holds i p Q s) ∧ (¬c → rules.Holds i q Q s) := by
  by_cases h : c <;> simp [h]

theorem Holds.mono {R : α → σ → Prop} (h : rules.Holds i p Q s)
    (imp : ∀ a t, Q a t → R a t) : rules.Holds i p R s := by
  induction p generalizing s with
  | ret a => exact imp a s h
  | act u n ih =>
    intro t hk hm w hi
    obtain ⟨inv, own, hr⟩ := h t hk hm w hi
    exact ⟨inv, own, ih t w hr⟩

theorem Holds.bind {f : α → Prog σ ω β} {R : β → σ → Prop}
    (hf : rules.Holds i p Q s) (hr : ∀ a t, Q a t → rules.Holds i (f a) R t) :
    rules.Holds i (p >>= f) R s :=
  (holds_bind p f R s).mpr (hf.mono hr)

/-- Interference before the first action is absorbed by the rely. -/
theorem Holds.interfere {t : σ} (h : rules.Holds i p Q s)
    (hs : ∀ a, Q a s → Q a t) (hm : rules.rely i s t) : rules.Holds i p Q t := by
  cases p with
  | ret a => exact hs a h
  | act u n => exact fun t' hk hl => h t' hk (rules.trans i s t t' hm hl)

theorem Holds.keeps (h : rules.Holds i p Q s) (hk : rules.inv s) :
    rules.Holds i p (fun a t => rules.inv t ∧ Q a t) s := by
  induction p generalizing s with
  | ret a => exact ⟨hk, h⟩
  | act u n ih =>
    intro t inv hm w hi
    obtain ⟨ha, own, hr⟩ := h t inv hm w hi
    exact ⟨ha, own, ih t w hr ha⟩

variable (rules i) in
/-- Thread `i` stays within its contract wherever it starts `p`. -/
def Always (p : Prog σ ω α) : Prop := ∀ s, rules.Holds i p (fun _ _ => True) s

theorem Always.pure (a : α) : rules.Always i (Pure.pure a : Prog σ ω α) := fun _ => trivial

theorem Always.bind {f : α → Prog σ ω β} (hf : rules.Always i p)
    (hr : ∀ a, rules.Always i (f a)) : rules.Always i (p >>= f) := fun s =>
  (hf s).bind fun a t _ => hr a t

theorem Always.ite {c : Prop} [Decidable c] {q : Prog σ ω α} (yes : rules.Always i p)
    (no : rules.Always i q) : rules.Always i (if c then p else q) := by
  split
  · exact yes
  · exact no

/-- Threads that promise each other nothing but an invariant. -/
def ofInvariant (inv : σ → Prop) : Rules ι σ where
  within _ := True
  inv := inv
  rely _ _ _ := True
  guarantee _ _ _ := True
  idle _ _ := True
  refl _ _ := trivial
  trans _ _ _ _ _ _ := trivial
  compatible _ _ _ _ _ _ _ _ := trivial
  stable _ _ _ _ _ := trivial

theorem always_perform {inv : σ → Prop} (hk : ∀ s w, inv s → inv (f s w).2) :
    (ofInvariant inv).Always i (Prog.perform f) :=
  fun _ t hke _ w _ => ⟨hk t w hke, trivial, trivial⟩

theorem Always.read {inv : σ → Prop} (f : σ → α) :
    (ofInvariant inv).Always i (Prog.read f : Prog σ ω α) := always_perform fun _ _ hk => hk

/-- One thread alone: nothing moves between its actions, and each of them leaves
the state as it is or makes a permitted change. -/
def sequential (inv : σ → Prop) (change : σ → σ → Prop) (idle : σ → Prop) : Rules Unit σ where
  within _ := True
  inv := inv
  rely _ := Eq
  guarantee _ s t := s = t ∨ change s t
  idle _ := idle
  refl _ _ := rfl
  trans _ _ _ _ := Eq.trans
  compatible _ _ _ _ distinct := absurd rfl distinct
  stable _ _ _ moved kept := moved ▸ kept

section Sequential
variable {inv : σ → Prop} {change : σ → σ → Prop} {idle : σ → Prop}

theorem sequential_perform
    (h : inv s → ∀ w, inv (f s w).2 ∧ change s (f s w).2 ∧ Q (f s w).1 (f s w).2) :
    (sequential inv change idle).Holds () (Prog.perform f) Q s := by
  rintro t hk rfl w -
  obtain ⟨ha, hc, hp⟩ := h hk w
  exact ⟨ha, .inr hc, hp⟩

theorem sequential_read {f : σ → α} (h : inv s → Q (f s) s) :
    (sequential inv change idle).Holds () (Prog.read f : Prog σ ω α) Q s := by
  rintro t hk rfl w -
  exact ⟨hk, .inl rfl, h hk⟩

theorem sequential_ask {f : ω → α} (h : ∀ w, Q (f w) s) :
    (sequential inv change idle).Holds () (Prog.ask f : Prog σ ω α) Q s := by
  rintro t hk rfl w -
  exact ⟨hk, .inl rfl, h w⟩

theorem sequential_modify {f : σ → σ} {Q : Unit → σ → Prop}
    (h : inv s → inv (f s) ∧ change s (f s) ∧ Q () (f s)) :
    (sequential inv change idle).Holds () (Prog.modify f : Prog σ ω Unit) Q s :=
  sequential_perform fun hk _ => h hk

/-- Along the whole run every state keeps the invariant and every action is
permitted. -/
theorem sequential_path {t : σ} {ss : List σ} {a : α}
    (h : (sequential inv change idle).Holds () p Q s) (hk : inv s) (hp : p.Path s ss a t) :
    (∀ m ∈ ss, inv m) ∧ (s :: ss).IsChain (fun m m' => m = m' ∨ change m m') ∧ Q a t := by
  induction hp with
  | ret a s => exact ⟨by simp, .singleton s, h⟩
  | act w hr ih =>
    obtain ⟨ha, hc, hl⟩ := h _ hk rfl w trivial
    obtain ⟨all, hch, hpo⟩ := ih hl ha
    exact ⟨by simpa using ⟨ha, all⟩, .cons_cons hc hch, hpo⟩

theorem sequential_still (h : ∀ w, (f s w).2 = s ∧ Q (f s w).1 s) :
    (sequential inv change idle).Holds () (Prog.perform f) Q s := by
  rintro t hk rfl w -
  obtain ⟨hs, hp⟩ := h w
  dsimp only
  rw [hs]
  exact ⟨hk, .inl rfl, hp⟩

theorem sequential_weaken {ch' : σ → σ → Prop} {i' : σ → Prop}
    (h : (sequential inv change idle).Holds () p Q s) (hw : ∀ m m', change m m' → ch' m m') :
    (sequential inv ch' i').Holds () p Q s := by
  induction p generalizing s with
  | ret a => exact h
  | act u n ih =>
    rintro t hk rfl w -
    obtain ⟨ha, hc, hl⟩ := h s hk rfl w trivial
    exact ⟨ha, hc.imp_right (hw _ _), ih s w hl⟩

theorem sequential_post {R : α → σ → Prop}
    (h : (sequential inv change idle).Holds () p Q s) (hp : p.wp R s) :
    (sequential inv change idle).Holds () p (fun a t => Q a t ∧ R a t) s := by
  induction p generalizing s with
  | ret a => exact ⟨h, hp⟩
  | act u n ih =>
    rintro t hk rfl w -
    obtain ⟨ha, hc, hl⟩ := h s hk rfl w trivial
    exact ⟨ha, hc, ih s w hl (hp w)⟩

/-- The contract of a part of the state, seen from the whole. -/
theorem sequential_lift {τ ω' : Type} (part : Prog.Part τ σ ω' ω) {inv : τ → Prop}
    {change : τ → τ → Prop} {idle : τ → Prop} {Q : α → τ → Prop} {t : τ}
    (h : (sequential (fun s => inv (part.put t s))
      (fun s s' => change (part.put t s) (part.put t s')) (fun _ => True)).Holds () p
        (fun a s => Q a (part.put t s)) (part.view t)) :
    (sequential inv change idle).Holds () (p.lift part) Q t := by
  induction p generalizing t with
  | ret a =>
    change Q a (part.put t (part.view t)) at h
    rwa [part.put_view] at h
  | act u n ih =>
    rintro t' hk rfl w -
    have hh : inv (part.put t (part.view t)) := by rwa [part.put_view]
    obtain ⟨ha, hc, hl⟩ := h _ hh rfl (part.answer w) trivial
    refine ⟨ha, ?_, ih _ _ ?_⟩
    · dsimp only
      rcases hc with hs | hm
      · exact .inl (by rw [← hs, part.put_view])
      · exact .inr (by rwa [part.put_view] at hm)
    · simpa only [part.view_put, part.put_put] using hl

end Sequential
end Rules

/-- The shared state and what is left of each thread's current call. -/
structure Config (ι σ ω : Type) where
  shared : σ
  running : ι → Prog σ ω Unit

/-- Every thread is inside its contract and the shared invariant holds. -/
structure Safe (rules : Rules ι σ) (c : Config ι σ ω) : Prop where
  inv : rules.inv c.shared
  threads : ∀ i, rules.Holds i (c.running i) (fun _ t => rules.idle i t) c.shared

variable {rs : Rules ι σ} {c c' : Config ι σ ω}

theorem Safe.act (hs : Safe rs c) {i : ι} {u : σ → ω → σ} {n : σ → ω → Prog σ ω Unit}
    (hh : c.running i = .act u n) (w : ω) (hi : rs.within (u c.shared w)) :
    rs.inv (u c.shared w) ∧ rs.guarantee i c.shared (u c.shared w) ∧
      rs.Holds i (n c.shared w) (fun _ t => rs.idle i t) (u c.shared w) := by
  have own := hs.threads i
  rw [hh] at own
  exact own c.shared hs.inv (rs.refl i c.shared) w hi

theorem Safe.idle (hs : Safe rs c) {i : ι} (hd : c.running i = pure ()) : rs.idle i c.shared := by
  have own := hs.threads i
  rwa [hd] at own

variable [DecidableEq ι] (starts : ι → σ → Prog σ ω Unit → Prop)

/-- A thread without a call may start one; any other performs its next action. -/
inductive Step : Config ι σ ω → Config ι σ ω → Prop
  | call {c : Config ι σ ω} (i : ι) (p : Prog σ ω Unit) (idle : c.running i = pure ())
      (started : starts i c.shared p) : Step c ⟨c.shared, update c.running i p⟩
  | act {c : Config ι σ ω} (i : ι) {u : σ → ω → σ} {n : σ → ω → Prog σ ω Unit}
      (here : c.running i = .act u n) (w : ω) :
      Step c ⟨u c.shared w, update c.running i (n c.shared w)⟩

inductive Run (start : σ) : Config ι σ ω → Prop
  | init : Run start ⟨start, fun _ => pure ()⟩
  | step {c c' : Config ι σ ω} (before : Run start c) (next : Step starts c c') : Run start c'

/-- A run all of whose later states are within a bound. -/
inductive RunWithin (within : σ → Prop) (start : σ) : Config ι σ ω → Prop
  | init : RunWithin within start ⟨start, fun _ => pure ()⟩
  | step {c c' : Config ι σ ω} (before : RunWithin within start c) (next : Step starts c c')
      (inside : within c'.shared) : RunWithin within start c'

variable {starts}

variable {start : σ} {within : σ → Prop}

theorem RunWithin.mono {w : σ → Prop} (hw : ∀ s, within s → w s)
    (run : RunWithin starts within start c) : RunWithin starts w start c := by
  induction run with
  | init => exact .init
  | step hb hn hi ih => exact ih.step hn (hw _ hi)

theorem Run.runWithin (he : ∀ s, within s) (run : Run starts start c) :
    RunWithin starts within start c := by
  induction run with
  | init => exact .init
  | step hb hn ih => exact ih.step hn (he _)

theorem Run.finish {t : σ} {done : Unit} {i : ι} {p : Prog σ ω Unit} {r : ι → Prog σ ω Unit}
    (he : p.Ends s done t) (run : Run starts start ⟨s, update r i p⟩) :
    Run starts start ⟨t, update r i (pure ())⟩ := by
  induction he with
  | ret a s => exact run
  | act w hr ih =>
    have hn := run.step (.act i (update_self i _ r) w)
    rw [update_idem] at hn
    exact ih hn

/-! Schedules that can be evaluated. -/

/-- One turn of a schedule: a call of thread `i`, or its next action. -/
inductive Move (ι σ ω : Type) where
  | call (i : ι) (p : Prog σ ω Unit)
  | act (i : ι) (w : ω)

def Config.move (c : Config ι σ ω) : Move ι σ ω → Option (Config ι σ ω)
  | .call i p =>
    match c.running i with
    | .ret _ => some ⟨c.shared, update c.running i p⟩
    | .act _ _ => none
  | .act i w =>
    match c.running i with
    | .ret _ => none
    | .act u n => some ⟨u c.shared w, update c.running i (n c.shared w)⟩

def Config.replay : List (Move ι σ ω) → Config ι σ ω → Option (Config ι σ ω)
  | [], c => some c
  | move :: moves, c => (c.move move).bind (Config.replay moves)

theorem Step.of_move {move : Move ι σ ω}
    (hs : ∀ i p, move = .call i p → starts i c.shared p) (hm : c.move move = some c') :
    Step starts c c' := by
  cases move with
  | call i p =>
    simp only [Config.move] at hm
    split at hm
    · next hi =>
      cases hm
      exact .call i p hi (hs i p rfl)
    · cases hm
  | act i w =>
    simp only [Config.move] at hm
    split at hm
    · cases hm
    · next hh =>
      cases hm
      exact .act i hh w

theorem Run.replay {ms : List (Move ι σ ω)}
    (hs : ∀ i p, .call i p ∈ ms → ∀ s, starts i s p) (run : Run starts start c)
    (hr : c.replay ms = some c') : Run starts start c' := by
  induction ms generalizing c with
  | nil =>
    cases hr
    exact run
  | cons move ms ih =>
    obtain ⟨next, hm, hre⟩ := Option.bind_eq_some_iff.mp hr
    have hst : Step starts c next := .of_move (fun i p hsa =>
      hs i p (hsa ▸ mem_cons_self) c.shared) hm
    exact ih (fun i p mem => hs i p (mem_cons_of_mem move mem)) (run.step hst) hre

/-- As above, as long as every state reached passes the check. -/
def Config.replayWithin (within : σ → Prop) [DecidablePred within] :
    List (Move ι σ ω) → Config ι σ ω → Option (Config ι σ ω)
  | [], c => some c
  | move :: moves, c => (c.move move).bind fun next =>
    if within next.shared then next.replayWithin within moves else none

theorem RunWithin.replay [DecidablePred within] {ms : List (Move ι σ ω)}
    (hs : ∀ i p, .call i p ∈ ms → ∀ s, starts i s p) (run : RunWithin starts within start c)
    (hr : c.replayWithin within ms = some c') : RunWithin starts within start c' := by
  induction ms generalizing c with
  | nil =>
    cases hr
    exact run
  | cons move ms ih =>
    obtain ⟨next, hm, hre⟩ := Option.bind_eq_some_iff.mp hr
    split at hre
    · next hi =>
      have hst : Step starts c next := .of_move (fun i p hsa =>
        hs i p (hsa ▸ mem_cons_self) c.shared) hm
      exact ih (fun i p mem => hs i p (mem_cons_of_mem move mem)) (run.step hst hi) hre
    · cases hre

section Soundness
variable (bs : ∀ i s p, starts i s p → rs.inv s → rs.idle i s →
  rs.Holds i p (fun _ t => rs.idle i t) s)
include bs

theorem Safe.step (hs : Safe rs c) (hn : Step starts c c')
    (hi : rs.within c'.shared) : Safe rs c' := by
  cases hn with
  | call i p hid hst =>
    refine ⟨hs.inv, fun j => ?_⟩
    by_cases hsa : j = i
    · subst hsa
      simpa using bs j c.shared p hst hs.inv (hs.idle hid)
    · simpa [hsa] using hs.threads j
  | @act i u n hh w =>
    obtain ⟨inv, own, hr⟩ := hs.act hh w hi
    refine ⟨inv, fun j => ?_⟩
    by_cases hsa : j = i
    · subst hsa
      simpa using hr
    · have hm := rs.compatible i j _ _ (Ne.symm hsa) hs.inv inv own
      have ho := (hs.threads j).interfere (fun _ => rs.stable j _ _ hm) hm
      simpa [hsa] using ho

theorem RunWithin.safe (inv : rs.inv start) (hid : ∀ i, rs.idle i start)
    (run : RunWithin starts rs.within start c) : Safe rs c := by
  induction run with
  | init => exact ⟨inv, hid⟩
  | step hb hn hi ih => exact ih.step bs hn hi

theorem Run.safe (he : ∀ s, rs.within s) (inv : rs.inv start)
    (hi : ∀ i, rs.idle i start) (run : Run starts start c) : Safe rs c :=
  (run.runWithin he).safe bs inv hi

/-- Every step leaves the shared state alone or keeps some thread's guarantee. -/
theorem Run.guarantee (he : ∀ s, rs.within s) (inv : rs.inv start)
    (hi : ∀ i, rs.idle i start) (run : Run starts start c) (hn : Step starts c c') :
    c'.shared = c.shared ∨ ∃ i, rs.guarantee i c.shared c'.shared := by
  have hs := run.safe bs he inv hi
  cases hn with
  | call i p hi hst => exact .inl rfl
  | act i hh w => exact .inr ⟨i, (hs.act hh w (he _)).2.1⟩

end Soundness
end VitaDebugger.RelyGuarantee
