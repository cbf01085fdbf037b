import Mathlib.Data.Fin.Basic
import VitaDebugger.RelyGuarantee

/-! The registry of exception handlers of `uvdb_exception_handlers.c` over the kernel's slots.
Token zero stands for no handler, which in a slot is the default one. -/

namespace VitaDebugger.ExceptionHandlers
open AtomicProgram RelyGuarantee Rules List Function

structure Registry where
  self : ℕ
  previous : Fin 3 → ℕ
  installed : Fin 3 → Bool
  published : Fin 3 → Bool
  fenceComplete : Bool

def zeroRegistry : Registry := ⟨0, fun _ => 0, fun _ => false, fun _ => false, false⟩

structure HandlerState where
  registry : Registry
  slots : Fin 3 → ℕ

/-- A call of the backend is one action and its answer is whether it succeeds. -/
abbrev Handlers := Prog HandlerState Bool

section Backend
variable (type : Fin 3)

def setSlot (token : ℕ) (s : HandlerState) : HandlerState :=
  { s with slots := update s.slots type token }

def callReplace (token : ℕ) : Handlers Bool :=
  Prog.perform fun s success => (success, if success then setSlot type token s else s)

def callRelease : Handlers Bool := callReplace type 0

/-- The displaced handler is stored before ours can be seen. -/
def callPublish : Handlers Bool :=
  Prog.perform fun s success => (success, if success then
    setSlot type s.registry.self { s with registry := { s.registry with
      previous := update s.registry.previous type (s.slots type) } }
    else s)

def forgetPrevious (s : HandlerState) : HandlerState :=
  { s with registry := { s.registry with previous := update s.registry.previous type 0 } }

def markInstalled (s : HandlerState) : HandlerState := { s with registry := { s.registry with
      previous := if s.registry.previous type = s.registry.self then
        update s.registry.previous type 0 else s.registry.previous
      published := update s.registry.published type true
      installed := update s.registry.installed type true } }

def clearInstalled (s : HandlerState) : HandlerState := { s with registry := { s.registry with
      installed := update s.registry.installed type false } }

end Backend

def handlersInit (token : ℕ) : Handlers ℤ := Prog.perform fun s _ =>
    if token = 0 ∨ (∃ type, s.registry.installed type = true) ∨
        ∃ type, s.registry.published type = true then (-1, s)
    else (0, { s with registry := { zeroRegistry with self := token } })

def callRestore (type : Fin 3) (registry : Registry) : Handlers Bool :=
  if registry.previous type ≠ 0 ∧ registry.previous type ≠ registry.self then
    callReplace type (registry.previous type)
  else callRelease type

def restoreLoop : List (Fin 3) → ℤ → Handlers ℤ
  | [], result => pure result
  | type :: types, result => do
    let registry ← Prog.read (·.registry)
    if registry.installed type then do
      let success ← callRestore type registry
      if success then do
        Prog.modify (clearInstalled type)
        restoreLoop types result
      else restoreLoop types (-1)
    else restoreLoop types result

def handlersRestore : Handlers ℤ := do
  let registry ← Prog.read (·.registry)
  if ∀ type, registry.installed type = false then pure 0
  else if registry.self = 0 then pure (-1)
  else restoreLoop [2, 1, 0] 0

def installLoop : List (Fin 3) → Handlers ℤ
  | [] => pure 0
  | type :: types => do
    Prog.modify (forgetPrevious type)
    let success ← callPublish type
    if success then do
      Prog.modify (markInstalled type)
      installLoop types
    else do
      let _ ← handlersRestore
      pure (-1)

def handlersInstall : Handlers ℤ := do
  let registry ← Prog.read (·.registry)
  if registry.self = 0 ∨ (∃ type, registry.installed type = true) ∨
      ∃ type, registry.published type = true then pure (-1)
  else installLoop [0, 1, 2]

def handlersFence : Handlers ℤ :=
  Prog.perform fun s success =>
    if (∃ type, s.registry.installed type = true) ∨ (∀ type, s.registry.published type = false) ∨
        success = false then (-1, s)
    else (0, { s with registry := { s.registry with fenceComplete := true } })

def handlersResetAfterFence : Handlers ℤ :=
  Prog.perform fun s _ =>
    if (∃ type, s.registry.installed type = true) ∨ (∀ type, s.registry.published type = false) ∨
        s.registry.fenceComplete = false then (-1, s)
    else (0, { s with registry := zeroRegistry })

inductive HandlerOp where
  | init (token : ℕ)
  | install
  | restore
  | fence
  | reset
  deriving DecidableEq

def HandlerOp.body : HandlerOp → Handlers ℤ
  | .init token => handlersInit token
  | .install => handlersInstall
  | .restore => handlersRestore
  | .fence => handlersFence
  | .reset => handlersResetAfterFence

def HandlerOp.program (op : HandlerOp) : Handlers (HandlerOp × ℤ) := do
  let result ← op.body
  pure (op, result)

variable {t : HandlerState} {type : Fin 3}

section Rules
variable (base : Fin 3 → ℕ)

/-- Between two calls. `base` is what the slots held before the first installation. -/
structure Sound (s : HandlerState) : Prop where
  slots : ∀ type, s.slots type = if s.registry.installed type then s.registry.self else base type
  named : ∀ type, s.registry.installed type = true → s.registry.self ≠ 0
  previous : ∀ type, s.registry.published type = true → s.registry.previous type = base type
  owned : ∀ type, s.registry.installed type = true → s.registry.published type = true
  fresh : s.registry.self ≠ 0 → ∀ type, base type ≠ s.registry.self

/-- Between two actions of a call as well. -/
structure Between (s : HandlerState) : Prop where
  slots : ∀ type, s.slots type = s.registry.self ∨ s.slots type = base type
  previous : ∀ type, s.registry.published type = true → s.registry.previous type = base type

abbrev handlerRules : Rules Unit HandlerState :=
  .sequential (Between base) (fun _ _ => True) (fun _ => True)

variable {base}

theorem Sound.between {s : HandlerState} (hs : Sound base s) : Between base s where
  slots type := by
    rw [hs.slots]
    split
    · exact .inl rfl
    · exact .inr rfl
  previous := hs.previous

/-- A restoration only takes handlers away. -/
structure Restored (s t : HandlerState) : Prop where
  published : t.registry.published = s.registry.published
  fenced : t.registry.fenceComplete = s.registry.fenceComplete
  fewer : ∀ type, t.registry.installed type = true → s.registry.installed type = true

theorem Restored.refl (s : HandlerState) : Restored s s := ⟨rfl, rfl, fun _ hk => hk⟩

theorem Restored.trans {s u : HandlerState} (hf : Restored s t) (hs : Restored t u) :
    Restored s u :=
  ⟨hs.published.trans hf.published, hs.fenced.trans hf.fenced,
    fun type hk => hf.fewer type (hs.fewer type hk)⟩

variable {s : HandlerState}

theorem Restored.clear (hm : Restored s t)
    (hc : s.registry.installed type = false) : t.registry.installed type = false := by
  by_contra hk
  rw [hm.fewer type (by simpa using hk)] at hc
  cases hc

theorem restored_clearInstalled (type : Fin 3) (slot : ℕ) :
    Restored s (clearInstalled type (setSlot type slot s)) := by
  refine ⟨rfl, rfl, fun other hk => ?_⟩
  simp only [clearInstalled, setSlot, update_apply] at hk
  split at hk
  · cases hk
  · exact hk

theorem Sound.restore (hs : Sound base s) :
    Sound base (clearInstalled type (setSlot type (base type) s)) := by
  have hf := (@restored_clearInstalled s type (base type)).fewer
  refine ⟨fun o => ?_, fun o hk => hs.named o (hf o hk), hs.previous,
    fun o hk => hs.owned o (hf o hk), hs.fresh⟩
  by_cases hsa : o = type
  · subst hsa
    simp [clearInstalled, setSlot]
  · simpa [clearInstalled, setSlot, hsa] using hs.slots o

theorem between_setSlot (hb : Between base s) (type : Fin 3) :
    Between base (setSlot type (base type) s) := by
  refine ⟨fun o => ?_, hb.previous⟩
  by_cases hs : o = type
  · subst hs
    exact .inr (update_self ..)
  · simpa [setSlot, hs] using hb.slots o

theorem holds_restoreLoop (ts : List (Fin 3)) (result : ℤ) (hs : Sound base s) :
    (handlerRules base).Holds () (restoreLoop ts result) (fun r t => Sound base t ∧ Restored s t ∧
      (r = 0 → result = 0 ∧ ∀ type ∈ ts, t.registry.installed type = false)) s := by
  induction ts generalizing result s with
  | nil => exact ⟨hs, .refl s, fun hz => ⟨hz, nofun⟩⟩
  | cons type ts ih =>
    refine (holds_bind ..).mpr (sequential_read fun _ => ?_)
    rw [holds_ite]
    refine ⟨fun hh => (holds_bind ..).mpr ?_, fun hc => ?_⟩
    · have hk := hs.previous type (hs.owned type hh)
      -- either call puts the handler back that was there before
      have hca : callRestore type s.registry = callReplace type (base type) := by
        rw [callRestore, hk]
        split
        · rfl
        next hn =>
        have hz : base type = 0 := by
          by_contra hso
          exact hn ⟨hso, hs.fresh (hs.named type hh) type⟩
        rw [hz]
        rfl
      rw [hca]
      refine sequential_perform fun hb sc => ?_
      cases sc with
      | false =>
        refine ⟨hb, trivial, (ih (-1) hs).mono ?_⟩
        rintro r t ⟨ha, hm, hz⟩
        exact ⟨ha, hm, fun hn => absurd (hz hn).1 (by decide)⟩
      | true =>
        refine ⟨between_setSlot hb type, trivial, ?_⟩
        refine (holds_bind ..).mpr (sequential_modify fun _ =>
          ⟨hs.restore.between, trivial, (ih result hs.restore).mono ?_⟩)
        rintro r t ⟨ha, hm, hz⟩
        refine ⟨ha, (restored_clearInstalled _ _).trans hm, fun hn => ⟨(hz hn).1, ?_⟩⟩
        exact forall_mem_cons.mpr ⟨hm.clear (by simp [clearInstalled]), (hz hn).2⟩
    refine (ih result hs).mono ?_
    rintro r t ⟨ha, hm, hz⟩
    refine ⟨ha, hm, fun hn => ⟨(hz hn).1, ?_⟩⟩
    exact forall_mem_cons.mpr ⟨hm.clear (by simpa using hc), (hz hn).2⟩

theorem holds_handlersRestore (hs : Sound base s) :
    (handlerRules base).Holds () handlersRestore (fun r t => Sound base t ∧ Restored s t ∧
      (r = 0 → ∀ type, t.registry.installed type = false)) s := by
  refine (holds_bind ..).mpr (sequential_read fun _ => ?_)
  rw [holds_ite]
  refine ⟨fun hn => ⟨hs, .refl s, fun _ => hn⟩, fun _ => ?_⟩
  rw [holds_ite]
  refine ⟨fun _ => ⟨hs, .refl s, nofun⟩, fun _ => ?_⟩
  refine (holds_restoreLoop _ _ hs).mono ?_
  rintro r t ⟨ha, hm, hz⟩
  exact ⟨ha, hm, fun hn type => (hz hn).2 type (by revert type; decide)⟩

/-- What an installation keeps: only slots that were not published are touched. -/
structure Grown (s t : HandlerState) : Prop where
  published : ∀ type, s.registry.published type = true → t.registry.published type = true
  fenced : t.registry.fenceComplete = s.registry.fenceComplete

theorem sound_forgetPrevious (hs : Sound base s)
    (hu : s.registry.published type = false) : Sound base (forgetPrevious type s) := by
  refine ⟨hs.slots, hs.named, fun o hse => ?_, hs.owned, hs.fresh⟩
  have ha : o ≠ type := by
    rintro rfl
    rw [forgetPrevious, hu] at hse
    cases hse
  simpa [forgetPrevious, ha] using hs.previous o hse

/-- The state behind a slot that was replaced and recorded. -/
def publishedState (type : Fin 3) (s : HandlerState) : HandlerState :=
  markInstalled type (setSlot type s.registry.self { s with registry := { s.registry with
    previous := update s.registry.previous type (s.slots type) } })

theorem sound_publishedState (hs : Sound base s) (hn : s.registry.self ≠ 0)
    (hu : s.registry.published type = false) : Sound base (publishedState type s) := by
  have hf : s.registry.installed type = false := by
    by_contra hh
    rw [hs.owned type (by simpa using hh)] at hu
    cases hu
  have hhe : s.slots type = base type := by rw [hs.slots, hf]; rfl
  have ho : s.slots type ≠ s.registry.self := hhe ▸ hs.fresh hn type
  refine ⟨fun p => ?_, fun _ _ => hn, fun p hse => ?_, fun p hh => ?_, hs.fresh⟩
  · by_cases hsa : p = type
    · simp [publishedState, markInstalled, setSlot, hsa]
    · simpa [publishedState, markInstalled, setSlot, hsa] using hs.slots p
  · by_cases hsa : p = type
    · simp [publishedState, markInstalled, setSlot, hsa, hhe, hs.fresh hn type]
    · simp only [publishedState, markInstalled, setSlot, ne_eq, hsa, not_false_eq_true,
        update_of_ne, update_self, if_neg ho] at hse ⊢
      exact hs.previous p hse
  by_cases hsa : p = type
  · simp [publishedState, markInstalled, setSlot, hsa]
  · simp only [publishedState, markInstalled, setSlot, ne_eq, hsa, not_false_eq_true,
      update_of_ne] at hh ⊢
    exact hs.owned p hh

theorem holds_installLoop (ts : List (Fin 3)) (hd : ts.Nodup) (hso : Sound base s)
    (hn : s.registry.self ≠ 0) (hu : ∀ type ∈ ts, s.registry.published type = false) :
    (handlerRules base).Holds () (installLoop ts) (fun _ t => Sound base t ∧ Grown s t) s := by
  induction ts generalizing s with
  | nil => exact ⟨hso, fun _ hs => hs, rfl⟩
  | cons type ts ih =>
    obtain ⟨new, hd⟩ := nodup_cons.mp hd
    have he := hu type mem_cons_self
    have hf := sound_forgetPrevious hso he
    refine (holds_bind ..).mpr (sequential_modify fun _ =>
      ⟨hf.between, trivial, (holds_bind ..).mpr ?_⟩)
    refine sequential_perform fun hb sc => ?_
    cases sc with
    | false =>
      refine ⟨hb, trivial, (holds_handlersRestore hf).bind ?_⟩
      rintro r t ⟨ha, hm, -⟩
      exact ⟨ha, fun o hs => by rw [hm.published]; exact hs, hm.fenced⟩
    | true =>
      have hg : ∀ o, s.registry.published o = true →
          (publishedState type (forgetPrevious type s)).registry.published o = true := by
        intro o hs
        by_cases hsa : o = type
        · simp [publishedState, markInstalled, hsa]
        · simpa [publishedState, markInstalled, setSlot, forgetPrevious, hsa] using hs
      refine ⟨⟨fun o => ?_, fun o hs => ?_⟩, trivial, ?_⟩
      · by_cases hsa : o = type
        · exact .inl (by simp [setSlot, hsa])
        · simpa [setSlot, hsa] using hb.slots o
      · have hap : o ≠ type := by
          rintro rfl
          rw [show s.registry.published o = true from hs] at he
          cases he
        simpa [setSlot, hap] using hb.previous o hs
      have hr := sound_publishedState hf hn he
      refine (holds_bind ..).mpr (sequential_modify fun _ =>
        ⟨hr.between, trivial, (ih hd hr hn ?_).mono ?_⟩)
      · intro o mem
        have hap : o ≠ type := fun hsa => new (hsa ▸ mem)
        simpa [publishedState, markInstalled, setSlot, forgetPrevious, hap] using
          hu o (mem_cons_of_mem type mem)
      · rintro r t ⟨ha, hm⟩
        exact ⟨ha, fun o hs => hm.published o (hg o hs), hm.fenced⟩

end Rules

/-- What a call leaves behind, with its result. -/
structure After (base : Fin 3 → ℕ) (op : HandlerOp) (result : ℤ) (s t : HandlerState) : Prop where
  sound : Sound base t
  kept : (op, result) ≠ (.reset, 0) → ∀ type, s.registry.published type = true →
    t.registry.published type = true
  fenced : t.registry.fenceComplete = true → (op, result) ≠ (.reset, 0) ∧
    (s.registry.fenceComplete = true ∨ (op, result) = (.fence, 0))
  reset : (op, result) = (.reset, 0) → s.registry.fenceComplete = true
  restored : (op, result) = (.restore, 0) → ∀ type, t.slots type = base type

variable {events : List (HandlerOp × ℤ)}

section Runs
variable {base : Fin 3 → ℕ} {s : HandlerState}

/-- A handler that is installed is none of those that were there before. -/
def Foreign (base : Fin 3 → ℕ) : HandlerOp → Prop
  | .init token => ∀ type, base type ≠ token
  | _ => True

theorem holds_body (op : HandlerOp) (hfo : Foreign base op) (hs : Sound base s) :
    (handlerRules base).Holds () op.body (fun r t => After base op r s t) s := by
  have hi (op : HandlerOp) : After base op (-1) s s :=
    ⟨hs, fun _ _ hse => hse, fun hd => ⟨by simp, .inl hd⟩, by simp, by simp⟩
  cases op with
  | init tk =>
    refine sequential_perform fun hb _ => ?_
    split
    · exact ⟨hb, trivial, hi _⟩
    next hf =>
    push Not at hf
    obtain ⟨hn, hf, hu⟩ := hf
    have hsl (type : Fin 3) : s.slots type = base type := by
      rw [hs.slots, if_neg (hf type)]
    have hr : Sound base { s with registry := { zeroRegistry with self := tk } } :=
      ⟨hsl, nofun, nofun, nofun, fun _ => hfo⟩
    exact ⟨hr.between, trivial, hr, fun _ type hse => absurd hse (hu type), nofun, nofun,
      nofun⟩
  | install =>
    refine (holds_bind ..).mpr (sequential_read fun _ => ?_)
    rw [holds_ite]
    refine ⟨fun _ => hi _, fun hf => ?_⟩
    push Not at hf
    refine (holds_installLoop _ (by decide) hs hf.1 fun type _ => ?_).mono ?_
    · simpa using hf.2.2 type
    · rintro r t ⟨ha, hg⟩
      exact ⟨ha, fun _ => hg.published, fun hd => ⟨by simp, .inl (hg.fenced ▸ hd)⟩,
        by simp, by simp⟩
  | restore =>
    refine (holds_handlersRestore hs).mono ?_
    rintro r t ⟨ha, hm, hz⟩
    refine ⟨ha, fun _ type hse => hm.published ▸ hse,
      fun hd => ⟨by simp, .inl (hm.fenced ▸ hd)⟩, by simp, fun hno type => ?_⟩
    rw [ha.slots, hz (Prod.mk.inj hno).2 type]
    rfl
  | fence =>
    refine sequential_perform fun hb success => ?_
    split
    · exact ⟨hb, trivial, hi _⟩
    have hr : Sound base { s with registry := { s.registry with fenceComplete := true } } :=
      { hs with }
    exact ⟨hr.between, trivial, hr, fun _ _ hse => hse, fun _ => ⟨by simp, .inr rfl⟩, by simp,
      by simp⟩
  | reset =>
    refine sequential_perform fun hb _ => ?_
    split
    · exact ⟨hb, trivial, hi _⟩
    next hf =>
    push Not at hf
    have hr : Sound base { s with registry := zeroRegistry } :=
      ⟨fun type => by rw [hs.slots, if_neg (hf.1 type)]; rfl, nofun, nofun, nofun,
        fun hn => absurd rfl hn⟩
    exact ⟨hr.between, trivial, hr, fun ho => absurd rfl ho, nofun,
      fun _ => by simpa using hf.2.2, by simp⟩

def Calls (base : Fin 3 → ℕ) (p : Handlers (HandlerOp × ℤ)) : Prop :=
  ∃ op : HandlerOp, Foreign base op ∧ p = op.program

def startState (base : Fin 3 → ℕ) : HandlerState := ⟨zeroRegistry, base⟩

/-- Calls one after another, with their results, from the start and from any later state. -/
abbrev Serves (base : Fin 3 → ℕ) := Prog.Repeats (Calls base) (fun s t => s = t)

theorem path_after {p : Handlers (HandlerOp × ℤ)} (hc : Calls base p) (hs : Sound base s)
    {ss : List HandlerState} {e : HandlerOp × ℤ} (hp : p.Path s ss e t) :
    (∀ m ∈ ss, Between base m) ∧ After base e.1 e.2 s t := by
  obtain ⟨op, hf, rfl⟩ := hc
  have hh : (handlerRules base).Holds () op.program
      (fun e t => After base e.1 e.2 s t) s :=
    (holds_bind ..).mpr (holds_body op hf hs)
  obtain ⟨hb, -, ha⟩ := sequential_path hh hs.between hp
  exact ⟨hb, ha⟩

theorem sound_start : Sound base (startState base) :=
  ⟨fun _ => rfl, nofun, nofun, nofun, fun hn => absurd rfl hn⟩

theorem ends_after {p : Handlers (HandlerOp × ℤ)} (hc : Calls base p) (hs : Sound base s)
    {e : HandlerOp × ℤ} (he : p.Ends s e t) : After base e.1 e.2 s t := by
  obtain ⟨states, hp⟩ := he.path
  exact (path_after hc hs hp).2

theorem serves_sound (hs : Sound base s) (run : Serves base s events t) : Sound base t := by
  induction run with
  | start => exact hs
  | call hb hm hc he ih =>
    subst hm
    exact (ends_after hc ih he).sound

/-- Until a reset succeeds, what was published stays so. -/
theorem serves_published (hs : Sound base s) (run : Serves base s events t)
    (hn : (.reset, 0) ∉ events) (type : Fin 3) (hse : s.registry.published type = true) :
    t.registry.published type = true := by
  induction run with
  | start => exact hse
  | call hb hm hc he ih =>
    subst hm
    simp only [mem_append, mem_singleton, not_or] at hn
    exact (ends_after hc (serves_sound hs hb) he).kept (Ne.symm hn.2) type (ih hn.1)

theorem serves_fenced (run : Serves base (startState base) events t)
    (hd : t.registry.fenceComplete = true) :
    ∃ before after, events = before ++ (.fence, 0) :: after ∧ (.reset, 0) ∉ after := by
  induction run with
  | start => cases hd
  | call before hm hc hen ih =>
    subst hm
    obtain ⟨ho, he | hh⟩ := (ends_after hc (serves_sound sound_start before) hen).fenced hd
    · obtain ⟨f, rest, rfl, hn⟩ := ih he
      refine ⟨f, rest ++ [_], by simp; rfl, fun mem => ?_⟩
      rcases mem_append.mp mem with old | hl
      · exact hn old
      · exact ho (mem_singleton.mp hl).symm
    · exact ⟨_, [], by rw [← hh], nofun⟩

/-- Every reset that succeeds had a fence before it. -/
theorem serves_reset {b a : List (HandlerOp × ℤ)}
    (run : Serves base (startState base) events t) (hs : events = b ++ (.reset, 0) :: a) :
    ∃ f rest, b = f ++ (.fence, 0) :: rest ∧ (.reset, 0) ∉ rest := by
  induction run generalizing a with
  | start => simp at hs
  | @call results event u _ _ p he hm hc hen ih =>
    subst hm
    rcases eq_nil_or_concat a with rfl | ⟨a, last, rfl⟩
    · obtain ⟨rfl, hh⟩ := append_inj' hs rfl
      have hr := (ends_after hc (serves_sound sound_start he) hen).reset
      exact serves_fenced he (hr (singleton_inj.mp hh))
    have hsh : b ++ (HandlerOp.reset, (0 : ℤ)) :: a.concat last =
        (b ++ (.reset, 0) :: a) ++ [last] := by simp
    rw [hsh] at hs
    exact ih (append_inj' hs rfl).1

end Runs

/-- The kernel's slots and the registry's records in every run. -/
theorem handlers_recorded (base : Fin 3 → ℕ) (events : List (HandlerOp × ℤ)) (s : HandlerState)
    (run : Serves base (startState base) events s) :
    (∀ p states event t, Calls base p → p.Path s states event t → ∀ m ∈ s :: states, ∀ type,
      (m.slots type = m.registry.self ∨ m.slots type = base type) ∧
      (m.registry.published type = true → m.registry.previous type = base type)) ∧
    (events.getLast? = some (.restore, 0) → ∀ type, s.slots type = base type) ∧
    (∀ result, events.getLast? = some (.install, result) → result ≠ 0 → ∀ type,
      (s.registry.installed type = true ↔ s.registry.self ≠ 0 ∧ s.slots type = s.registry.self)) ∧
    (∀ more t, Serves base s more t → (.reset, 0) ∉ more → ∀ type,
      s.registry.published type = true → t.registry.published type = true ∧
        t.registry.previous type = s.registry.previous type) ∧
    ∀ before after, events = before ++ (.reset, 0) :: after →
      ∃ first rest, before = first ++ (.fence, 0) :: rest ∧ (.reset, 0) ∉ rest := by
  have hs := serves_sound sound_start run
  refine ⟨fun p states event t hc hpa m mem type => ?_, fun hl type => ?_,
    fun result _ _ type => ⟨fun hh => ?_, fun own => ?_⟩, fun more t hla hn type hse => ?_,
    fun before after hsp => serves_reset run hsp⟩
  · rcases mem_cons.mp mem with rfl | hp
    · exact ⟨hs.between.slots type, hs.previous type⟩
    · have hb := (path_after hc hs hpa).1 m hp
      exact ⟨hb.slots type, hb.previous type⟩
  · cases run with
    | start => cases hl
    | call before hm hc he =>
      subst hm
      rw [List.getLast?_append] at hl
      exact (ends_after hc (serves_sound sound_start before) he).restored (Option.some.inj hl) type
  · exact ⟨hs.named type hh, by rw [hs.slots, if_pos hh]⟩
  · by_contra hcl
    rw [hs.slots, if_neg hcl] at own
    exact hs.fresh own.1 type own.2
  · have hst := serves_published hs hla hn type hse
    rw [(serves_sound hs hla).previous type hst, hs.previous type hse]
    exact ⟨hst, rfl⟩

/-- The second slot refuses our handler and the first one keeps it. -/
theorem handlers_recorded_refused : ∃ s,
    Serves (fun _ => 0) (startState fun _ => 0) [(.init 7, 0), (.install, -1)] s ∧
    s.registry.installed 0 = true ∧ s.registry.self ≠ 0 ∧ s.slots 0 = s.registry.self := by
  let base : Fin 3 → ℕ := fun _ => 0
  let r : HandlerState := ⟨{ zeroRegistry with self := 7 }, base⟩
  have hf : (HandlerOp.program (.init 7)).exec [true] (startState base) =
      some ((.init 7, 0), r, []) := rfl
  obtain ⟨s, hs, hh⟩ : ∃ s, (HandlerOp.program .install).exec
      [true, true, true, true, true, false, true, true, true, true, false] r =
        some ((.install, -1), s, []) ∧ s.registry.installed 0 = true := ⟨_, rfl, rfl⟩
  have run : Serves base (startState base) [(.init 7, 0), (.install, -1)] s :=
    (Prog.Repeats.start.call rfl ⟨_, by simp [Foreign, base], rfl⟩ (Prog.ends_of_exec hf)).call rfl
      ⟨.install, trivial, rfl⟩ (Prog.ends_of_exec hs)
  have hr := (handlers_recorded base _ s run).2.2.1 (-1) rfl (by decide) 0
  exact ⟨s, run, hh, hr.mp hh⟩

end VitaDebugger.ExceptionHandlers
