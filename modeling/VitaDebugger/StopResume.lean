import VitaDebugger.KernelStop
import VitaDebugger.RelyGuarantee

/-! Which threads the stop session resumes, on whose authority, and in which state.
The regions are sequential programs, so each gets one postcondition; the contract
between threads only speaks of the states where the lock is free. -/

namespace VitaDebugger.StopResume
open AtomicProgram Prog RelyGuarantee Rules ThreadMutation KernelStop List Function Option

/-- Neither kind of mutation is open. -/
structure Clear (core : KernelCore) : Prop where
  mutation : core.session.hardwareMutation = false
  pending : core.session.hardwareRestorePending = false
  cleaned : core.mutation.session.state = .empty

/-- The session suspended the thread after a query that did not report it suspended. -/
def Owns (core : KernelCore) (thread : ℤ) : Prop :=
  ∃ entry ∈ core.owned, entry.thread = thread ∧ entry.state ≤ 0

/-- It did so in the latest suspending call. -/
def OwnsNow (core : KernelCore) (thread : ℤ) : Prop :=
  ∃ entry ∈ core.owned, entry.thread = thread ∧ entry.state ≤ 0 ∧ entry.round = core.round

def Rollback : Agent → Prop
  | .renewRollback _ _ => True
  | _ => False

/-- The owner names its session by pid and token; the others wait for the lease to
end or for the hardware engine to stop. -/
def Authorised (core : KernelCore) : Agent → Prop
  | .beginFailed => core.session.active = false
  | .beginUncopied pid token => core.session.isFor pid token
  | .renewRollback pid token => core.session.isFor pid token
  | .endStop pid token => core.session.isFor pid token
  | .updateDone pid stopToken now =>
    core.session.isFor pid stopToken ∧ core.session.deadlineUs ≤ now
  | .released pid now =>
    core.session.active ∧ core.session.pid = pid ∧ core.session.deadlineUs ≤ now
  | .watchdog now => core.session.active ∧ core.session.deadlineUs ≤ now
  | .moduleStop => core.unloading

structure Justified (resume : Resume) : Prop where
  authorised : Authorised resume.core resume.agent
  owned : Owns resume.core resume.thread
  quiet : ¬Rollback resume.agent → Clear resume.core
  idle : ¬Rollback resume.agent → resume.core.unloading = false →
    ∀ i, resume.core.updates i = none
  sameCall : Rollback resume.agent → OwnsNow resume.core resume.thread

/-- The flag stands for the one update in flight, as long as nothing but the updates
themselves clears it. -/
structure CoreKept (core : KernelCore) : Prop where
  owned : ∀ thread ∈ core.session.suspended, Owns core thread
  inFlight : ∀ i u, core.updates i = some u → core.unloading = false →
    core.session.isFor u.pid u.stopToken ∧ core.session.hardwareMutation = true
  single : ∀ i j u v, core.updates i = some u → core.updates j = some v →
    core.unloading = false → i = j

structure Kept (s : KernelState) : Prop where
  resumes : ∀ resume ∈ s.resumes, Justified resume
  core : CoreKept s.core

/-- A session that stays active stays the same session. -/
def OneSession (s t : KernelState) : Prop := s.core.session.active → t.core.session.active →
    t.core.session.pid = s.core.session.pid ∧ t.core.session.token = s.core.session.token

def stopRules : Rules ℕ KernelState where
  within _ := True
  inv := Kept
  rely i s t := t.core.updates i = s.core.updates i
  guarantee i s t := OneSession s t ∧ ∀ j, j ≠ i → t.core.updates j = s.core.updates j
  idle i s := s.core.updates i = none
  refl _ _ := rfl
  trans _ _ _ _ first second := second.trans first
  compatible _ j _ _ distinct _ _ own := own.2 j (Ne.symm distinct)
  stable _ _ _ moved idle := moved.trans idle

theorem OneSession.refl (s : KernelState) : OneSession s s := fun _ _ => ⟨rfl, rfl⟩

variable {core : KernelCore} {s : KernelState} {thread : ℤ}

theorem OwnsNow.owns (now : OwnsNow core thread) : Owns core thread := by
  obtain ⟨e, mem, hsa, hs, -⟩ := now
  exact ⟨e, mem, hsa, hs⟩

theorem CoreKept.updates_none (hk : CoreKept core) (hs : core.session.hardwareMutation = false)
    (hr : core.unloading = false) (i : ℕ) : core.updates i = none := by
  cases hp : core.updates i with
  | none => rfl
  | some u =>
    have set := (hk.inFlight i u hp hr).2
    rw [hs] at set
    cases set

/-! Mutation cleanup. -/

theorem wp_clearTransaction (c : Cause) (backend : Option Backend) (s : MutationState) :
    (clearTransaction c backend).wp (fun _ t => t.session.state = .empty) s := by
  simp only [clearTransaction, wp_bind, wp_modify]
  exact wp_of_forall s fun _ _ => rfl

theorem wp_restoreExact (backend : Option Backend) (s : MutationState) :
    (restoreExact backend).wp (fun r t => 0 ≤ r → t.session.state = .empty) s := by
  simp only [restoreExact, onSession, wp_bind, wp_modify, wp_read, wp_ite, wp_pure]
  refine ⟨fun _ hr => absurd hr (by decide), fun _ => wp_of_forall _ ?_⟩
  intro status t
  refine ⟨fun _ hr => absurd hr (by decide), fun _ => ⟨?_, fun _ => ?_⟩⟩
  · exact fun _ hr => absurd hr (by decide)
  · refine wp_of_forall _ fun error u => ⟨fun _ hr => absurd hr (by decide), ?_⟩
    exact fun _ => (wp_clearTransaction .restored backend u).mono fun _ _ he _ => he

theorem wp_vdThreadMutationCleanup (ownerPid : ℤ) (stopToken : UInt32) (backend : Option Backend)
    (s : MutationState) :
    (vdThreadMutationCleanup ownerPid stopToken backend).wp
      (fun r t => 0 ≤ r → t.session.state = .empty) s := by
  have hc (c : Cause) (t : MutationState) :
      (clearTransaction c backend).wp (fun _ u => 0 ≤ (0 : ℤ) → u.session.state = .empty) t :=
    (wp_clearTransaction c backend t).mono fun _ _ he _ => he
  simp only [vdThreadMutationCleanup, wp_bind, wp_read, wp_ite, wp_pure]
  refine ⟨fun he _ => he, fun _ => ⟨fun _ hr => absurd hr (by decide), fun _ =>
    ⟨fun _ => hc .unwritten s, fun _ => ⟨fun _ hr => absurd hr (by decide), ?_⟩⟩⟩⟩
  refine fun _ => wp_of_forall _ fun status t => ⟨fun _ => hc .gone t, fun _ => ?_⟩
  exact ⟨fun _ hr => absurd hr (by decide), fun _ => wp_restoreExact backend t⟩

variable (backend : Backend)

theorem wp_cleanupMutation (ss : StopSession) (s : KernelState) :
    (cleanupMutation backend ss).wp (fun r t => ∃ mutation,
      t = ⟨{ s.core with mutation }, s.resumes⟩ ∧ (0 ≤ r → mutation.session.state = .empty)) s := by
  simp only [cleanupMutation, wp_bind, wp_read, wp_ite, wp_pure]
  refine ⟨fun _ => wp_lift mutationPart ?_, fun hi => ⟨s.core.mutation, rfl, ?_⟩⟩
  · refine (wp_vdThreadMutationCleanup ss.pid ss.token _ _).mono ?_
    exact fun r mutation he => ⟨mutation, rfl, he⟩
  · simpa [KernelCore.mutationActive] using hi

/-! Resuming. -/

/-- The log gained resumes of listed threads, all issued in the present state. -/
def Logged (agent : Agent) (threads : List ℤ) (s t : KernelState) : Prop :=
  t.core = s.core ∧ ∀ resume ∈ t.resumes,
    resume ∈ s.resumes ∨ ∃ thread ∈ threads, resume = ⟨agent, thread, s.core⟩

theorem Logged.refl (agent : Agent) (ts : List ℤ) (s : KernelState) :
    Logged agent ts s s := ⟨rfl, fun _ => .inl⟩

variable {t : KernelState} {agent : Agent}

theorem Logged.trans {ts : List ℤ} {u : KernelState} (hf : Logged agent ts s t)
    (hs : Logged agent ts t u) : Logged agent ts s u := by
  refine ⟨hs.1.trans hf.1, fun r mem => ?_⟩
  cases hs.2 r mem with
  | inl he => exact hf.2 r he
  | inr hi => exact .inr (hf.1 ▸ hi)

theorem Logged.mono {few many : List ℤ} (hl : Logged agent few s t)
    (sub : few ⊆ many) : Logged agent many s t := by
  refine ⟨hl.1, fun r mem => (hl.2 r mem).imp_right ?_⟩
  exact fun ⟨thread, hli, hs⟩ => ⟨thread, sub hli, hs⟩

theorem wp_issueResume (agent : Agent) (thread : ℤ) (s : KernelState) :
    (issueResume agent thread).wp (fun _ t => Logged agent [thread] s t) s := by
  refine fun w => ⟨rfl, fun resume mem => ?_⟩
  cases mem_cons.mp mem with
  | inl hh => exact .inr ⟨thread, mem_singleton_self thread, hh⟩
  | inr he => exact .inl he

theorem wp_resumeOne (agent : Agent) (p : Bool) (thread : ℤ) (s : KernelState) :
    (resumeOne agent p thread).wp (fun _ t => Logged agent [thread] s t) s := by
  simp only [resumeOne, wp_bind]
  refine (wp_issueResume agent thread s).mono fun result t hf => ?_
  simp only [wp_ite, wp_pure, wp_bind]
  refine ⟨fun _ => hf, fun _ => (wp_issueResume agent thread t).mono ?_⟩
  intro recovery u hs
  exact ⟨fun _ => hf.trans hs, fun _ _ => hf.trans hs⟩

theorem wp_resumeEach (agent : Agent) (p : ℤ → Bool) (ts : List ℤ) (s : KernelState) :
    (resumeEach agent p ts).wp
      (fun r t => r.1 ⊆ ts ∧ Logged agent ts s t) s := by
  induction ts generalizing s with
  | nil => exact ⟨Subset.refl [], .refl agent [] s⟩
  | cons thread rest ih =>
    simp only [resumeEach, wp_bind, wp_pure]
    refine (wp_resumeOne agent (p thread) thread s).mono fun f t hf => ?_
    refine (ih t).mono fun after u hl => ?_
    have ht := subset_cons_self thread rest
    refine ⟨?_, (hf.mono (by simp)).trans (hl.2.mono ht)⟩
    cases f with
    | none => exact Subset.trans hl.1 ht
    | some code => exact cons_subset_cons thread hl.1

theorem Logged.kept {ts : List ℤ} (hl : Logged agent ts s t)
    (hk : Kept s) (hj : ∀ thread ∈ ts, Justified ⟨agent, thread, s.core⟩) :
    Kept t := by
  refine ⟨fun r mem => ?_, hl.1 ▸ hk.core⟩
  cases hl.2 r mem with
  | inl he => exact hk.resumes r he
  | inr hi =>
    obtain ⟨thread, hli, rfl⟩ := hi
    exact hj thread hli

/-- Only the deadline, the list of suspended threads or the whole session goes. -/
structure Ended (s t : KernelState) : Prop where
  kept : Kept t
  same : t.core.session.active → t.core.session.pid = s.core.session.pid ∧
    t.core.session.token = s.core.session.token
  updates : t.core.updates = s.core.updates

theorem Ended.refl (hk : Kept s) : Ended s s := ⟨hk, fun _ => ⟨rfl, rfl⟩, rfl⟩

theorem Authorised.withMutation (ha : Authorised core agent) (mutation : MutationState) :
    Authorised { core with mutation } agent := by
  cases agent <;> exact ha

/-- With the flag down no update is in flight, so the rest of the session is free to
change. -/
theorem CoreKept.settled (hk : CoreKept core) (hs : core.session.hardwareMutation = false)
    {session : StopSession} (sub : session.suspended ⊆ core.session.suspended) :
    CoreKept { core with session } where
  owned thread mem := hk.owned thread (sub mem)
  inFlight i u hp hr := by
    have hn := hk.updates_none hs hr i
    rw [show core.updates i = some u from hp] at hn
    cases hn
  single := hk.single

theorem wp_resumeSessionLocked (agent : Agent) (hk : Kept s)
    (hd : ¬Rollback agent) (ha : Authorised s.core agent) :
    (resumeSessionLocked backend agent).wp (fun _ t => Ended s t) s := by
  simp only [resumeSessionLocked, getThreadIdList, onStopSession, onCore, wp_bind,
    wp_read, wp_ite, wp_pure, wp_ask]
  refine ⟨fun _ => .refl hk, fun hcl w => ?_⟩
  obtain ⟨hs, hrs⟩ : s.core.session.hardwareMutation = false ∧
      s.core.session.hardwareRestorePending = false := by simpa using hcl
  refine (wp_cleanupMutation backend s.core.session s).mono ?_
  rintro result _ ⟨mutation, rfl, hc⟩
  have hi : Kept ⟨{ s.core with mutation }, s.resumes⟩ :=
    ⟨hk.resumes, { hk.core with }⟩
  simp only [wp_modify]
  refine ⟨fun _ => ⟨⟨hi.resumes, hi.core.settled hs (Subset.refl _)⟩,
    fun _ => ⟨rfl, rfl⟩, rfl⟩, fun hac => ?_⟩
  refine (wp_resumeEach agent _ _ _).mono fun r t hr => ?_
  have hj : ∀ thread ∈ s.core.session.suspended.reverse,
      Justified ⟨agent, thread, { s.core with mutation }⟩ := fun thread mem =>
    { authorised := ha.withMutation mutation
      owned := hi.core.owned thread (mem_reverse.mp mem)
      quiet := fun _ => ⟨hs, hrs, hc (by omega)⟩
      idle := fun _ hre => hi.core.updates_none hs hre
      sameCall := fun hro => absurd hro hd }
  have haf := hr.2.kept hi hj
  obtain ⟨core, log⟩ := t
  obtain rfl : core = _ := hr.2.1
  have sub : r.1 ⊆ s.core.session.suspended :=
    fun thread mem => mem_reverse.mp (hr.1 mem)
  by_cases all : r.1 = []
  · simp only [all, if_true]
    exact ⟨⟨haf.resumes, haf.core.settled hs (nil_subset _)⟩, (by rintro ⟨⟩), rfl⟩
  · simp only [all, if_false]
    exact ⟨⟨haf.resumes, haf.core.settled hs sub⟩, fun _ => ⟨rfl, rfl⟩, rfl⟩

theorem wp_resumeWhen {due : Bool} (hk : Kept s) (hd : ¬Rollback agent)
    (ha : due → Authorised s.core agent) :
    (resumeWhen backend agent due).wp (fun _ t => Ended s t) s := by
  rw [resumeWhen, wp_ite]
  exact ⟨fun now => wp_resumeSessionLocked backend agent hk hd (ha now), fun _ => .refl hk⟩

/-! Suspending more threads. -/

/-- The session holds some further threads, all suspended in the present call. -/
structure Gathered (s t : KernelState) : Prop where
  session : ∃ more, t.core.session =
      { s.core.session with suspended := s.core.session.suspended ++ more } ∧
    ∀ thread ∈ more, OwnsNow t.core thread
  owned : ∀ entry ∈ s.core.owned, entry ∈ t.core.owned
  round : t.core.round = s.core.round
  updates : t.core.updates = s.core.updates
  unloading : t.core.unloading = s.core.unloading
  resumes : t.resumes = s.resumes

namespace Gathered

theorem refl (s : KernelState) : Gathered s s where
  session := ⟨[], by simp, nofun⟩
  owned _ := id
  round := rfl
  updates := rfl
  unloading := rfl
  resumes := rfl

theorem ownsNow (hg : Gathered s t) (now : OwnsNow s.core thread) : OwnsNow t.core thread := by
  obtain ⟨e, mem, hsa, hs, hr⟩ := now
  exact ⟨e, hg.owned e mem, hsa, hs, hr.trans hg.round.symm⟩

theorem trans {u : KernelState} (hf : Gathered s t) (hs : Gathered t u) : Gathered s u where
  session := by
    obtain ⟨some, hh, ho⟩ := hf.session
    obtain ⟨more, hl, ha⟩ := hs.session
    refine ⟨some ++ more, by rw [hl, hh, append_assoc], fun thread mem => ?_⟩
    cases mem_append.mp mem with
    | inl he => exact hs.ownsNow (ho thread he)
    | inr hla => exact ha thread hla
  owned e mem := hs.owned e (hf.owned e mem)
  round := hs.round.trans hf.round
  updates := hs.updates.trans hf.updates
  unloading := hs.unloading.trans hf.unloading
  resumes := hs.resumes.trans hf.resumes

theorem kept (hg : Gathered s t) (hb : Kept s) : Kept t := by
  obtain ⟨more, hs, ha⟩ := hg.session
  refine ⟨hg.resumes ▸ hb.resumes, ?_, ?_, ?_⟩
  · intro thread mem
    rw [hs] at mem
    cases mem_append.mp mem with
    | inl old =>
      obtain ⟨e, hl, hsa⟩ := hb.core.owned thread old
      exact ⟨e, hg.owned e hl, hsa⟩
    | inr new => exact (ha thread new).owns
  · rw [hs, hg.updates, hg.unloading]
    exact hb.core.inFlight
  · rw [hg.updates, hg.unloading]
    exact hb.core.single

end Gathered

theorem wp_takeThread {state : ℤ} (hr : state ≤ 0) (s : KernelState) :
    (takeThread thread state).wp (fun _ t => Gathered s t) s := fun _ =>
  { Gathered.refl s with
    session := ⟨[thread], rfl, fun _ mem => by
      obtain rfl := mem_singleton.mp mem
      exact ⟨_, mem_cons_self, rfl, hr, rfl⟩⟩
    owned := fun _ => mem_cons_of_mem _ }

theorem wp_suspendEach (c e : ℤ) (ts : List ℤ) (s : KernelState) :
    (suspendEach c e ts).wp (fun _ t => Gathered s t) s := by
  induction ts generalizing s with
  | nil => exact .refl s
  | cons thread rest ih =>
    simp only [suspendEach, isThreadDebugSuspended, debugSuspendThread, onCore, wp_ite,
      wp_bind, wp_ask, wp_modify, wp_pure]
    refine ⟨fun _ => ih s, fun _ w => ⟨fun _ => ?_, fun hr w' => ⟨fun _ => .refl s, ?_⟩⟩⟩
    · have hn : Gathered s ⟨{ s.core with found := thread :: s.core.found }, s.resumes⟩ :=
        { Gathered.refl s with }
      exact (ih _).mono fun _ t hl => hn.trans hl
    · intro _
      refine (wp_takeThread (not_lt.mp hr) s).mono fun _ t ht => ?_
      exact (ih t).mono fun _ u hl => ht.trans hl

theorem wp_reconcileEach (c e r : ℤ) (ts : List ℤ) (s : KernelState) :
    (reconcileEach c e r ts).wp (fun _ t => Gathered s t) s := by
  induction ts generalizing r s with
  | nil => exact .refl s
  | cons thread rest ih =>
    simp only [reconcileEach, isThreadDebugSuspended, debugSuspendThread, wp_ite,
      wp_bind, wp_ask, wp_read, wp_pure]
    refine ⟨fun _ => ih r s, fun _ => ⟨fun _ => ih r s, fun _ w =>
      ⟨fun _ => ih r s, fun hr => ⟨fun _ => .refl s, fun _ w' => ⟨fun _ => .refl s, ?_⟩⟩⟩⟩⟩
    intro _
    refine (wp_takeThread (not_lt.mp hr) s).mono fun _ t ht => ?_
    exact (ih _ t).mono fun _ u hl => ht.trans hl

/-! The regions. -/

/-- What every region but those of an update leaves behind. -/
structure Sound (s t : KernelState) : Prop where
  kept : Kept t
  one : OneSession s t
  updates : t.core.updates = s.core.updates

theorem Sound.refl (hk : Kept s) : Sound s s := ⟨hk, .refl s, rfl⟩

theorem Ended.sound (he : Ended s t) : Sound s t := ⟨he.kept, fun _ => he.same, he.updates⟩

theorem CoreKept.relisted (hk : CoreKept core) {l : List ℤ}
    (ho : ∀ thread ∈ l, Owns core thread) :
    CoreKept { core with session := { core.session with suspended := l } } :=
  ⟨ho, hk.inFlight, hk.single⟩

theorem Kept.opened (hk : Kept s) (hi : s.core.session.active = false)
    (c : Caller) (e : ℤ) : Kept ⟨s.core.opened c e, s.resumes⟩ where
  resumes := hk.resumes
  core :=
    { owned := nofun
      inFlight := fun i u hp hr => by
        have hc := (hk.core.inFlight i u hp hr).1
        simp [StopSession.isFor, hi] at hc
      single := hk.core.single }

theorem wp_beginLocked (c : Caller) (e : ℤ) (leaseMs : UInt32) (ts : List ℤ)
    (hk : Kept s) :
    (beginLocked backend c e leaseMs ts).wp (fun _ t => Sound s t) s := by
  simp only [beginLocked, onCore, wp_bind, wp_read, wp_ite, wp_pure, wp_modify]
  refine ⟨fun _ => .refl hk, fun hfr => ?_⟩
  have hi : s.core.session.active = false := by simp_all
  have hf (t : KernelState) : OneSession s t := fun ha => by simp [hi] at ha
  refine (wp_suspendEach c.thread e ts _).mono fun l t hg => ?_
  have inner := hg.kept (hk.opened hi c e)
  obtain ⟨more, session, -⟩ := hg.session
  cases hfa : l.2 with
  | some failure =>
    simp only [getUserThreadId, wp_bind, wp_ask, wp_pure]
    have hst : Authorised t.core .beginFailed := by
      simpa [Authorised, session, KernelCore.opened] using hi
    intro w
    refine wp.mono (wp_resumeSessionLocked backend _ inner False.elim hst) fun _ u he => ?_
    exact ⟨he.kept, hf u, he.updates.trans hg.updates⟩
  | none =>
    simp only [getSystemTimeWide, wp_bind, wp_ask, wp_modify, wp_read, wp_pure]
    have hst : t.core.session.hardwareMutation = false := by simp [session, KernelCore.opened]
    intro w
    have hse : CoreKept { t.core with session := (t.core.published w.time leaseMs).session } :=
      inner.core.settled hst (Subset.refl _)
    exact ⟨⟨inner.resumes, { hse with }⟩, hf _, hg.updates⟩

variable {pid : ℤ} {token : UInt32}

theorem wp_endLocked (agent : Agent) (hd : ¬Rollback agent)
    (ha : ∀ core : KernelCore, core.session.isFor pid token → Authorised core agent)
    (hk : Kept s) :
    (endLocked backend agent pid token).wp (fun _ t => Sound s t) s := by
  simp only [endLocked, wp_bind, wp_read, wp_ite, wp_pure]
  refine ⟨fun hc => ?_, fun _ => .refl hk⟩
  refine (wp_resumeSessionLocked backend agent hk hd (ha _ hc)).mono ?_
  exact fun _ _ he => he.sound

theorem wp_retainEach (l ts : List ℤ) (s : KernelState) :
    (retainEach l ts).wp (fun r t => t = s ∧ r ⊆ ts) s := by
  induction ts generalizing s with
  | nil => exact ⟨rfl, Subset.refl []⟩
  | cons thread rest ih =>
    have ht := subset_cons_self thread rest
    simp only [retainEach, isThreadDebugSuspended, wp_ite, wp_bind, wp_ask, wp_pure]
    refine ⟨fun _ w => (ih s).mono ?_, fun _ => (ih s).mono ?_⟩
    · rintro r _ ⟨rfl, sub⟩
      refine ⟨rfl, ?_⟩
      split
      · exact cons_subset_cons thread sub
      · exact Subset.trans sub ht
    · rintro r _ ⟨rfl, sub⟩
      exact ⟨rfl, Subset.trans sub ht⟩

theorem wp_rollback {r m : List ℤ} (hk : Kept s)
    (hc : s.core.session.isFor pid token)
    (hl : s.core.session.suspended = r ++ m)
    (had : ∀ thread ∈ m, OwnsNow s.core thread) :
    (rollback (.renewRollback pid token) r.length).wp (fun _ t => Sound s t) s := by
  simp only [rollback, onStopSession, onCore, wp_bind, wp_read, wp_modify, hl,
    drop_left, take_left]
  refine (wp_resumeEach _ _ m s).mono fun kept' t hr => ?_
  have ha := hr.2.kept hk fun thread mem =>
    { authorised := hc
      owned := (had thread mem).owns
      quiet := fun hd => absurd trivial hd
      idle := fun hd => absurd trivial hd
      sameCall := fun _ => had thread mem }
  obtain ⟨core, log⟩ := t
  obtain rfl : core = _ := hr.2.1
  refine ⟨⟨ha.resumes, ha.core.relisted fun thread mem => ?_⟩, fun _ _ => ⟨rfl, rfl⟩, rfl⟩
  refine ha.core.owned thread (hl ▸ ?_)
  cases mem_append.mp mem with
  | inl old => exact mem_append_left m old
  | inr new => exact mem_append_right r (hr.1 new)

theorem wp_renewListed (leaseMs : UInt32) (ts : List ℤ) (hk : Kept s)
    (hc : s.core.session.isFor pid token) :
    (renewListed pid token leaseMs s.core.session ts).wp (fun _ t => Sound s t) s := by
  simp only [renewListed, onCore, wp_bind, wp_modify]
  refine (wp_retainEach ts s.core.session.suspended s).mono ?_
  rintro retained _ ⟨rfl, sub⟩
  rename_i s
  have hr := hk.core.relisted fun thread mem => hk.core.owned thread (sub mem)
  refine (wp_reconcileEach _ _ 0 ts _).mono fun result t hg => ?_
  have hi := hg.kept ⟨hk.resumes, { hr with }⟩
  obtain ⟨more, hs, had⟩ := hg.session
  have one : OneSession s t := fun _ _ => by simp [hs]
  simp only [getSystemTimeWide, onStopSession, onCore, wp_ite, wp_bind, wp_ask, wp_modify, wp_pure]
  constructor
  · intro _
    have hsa : t.core.session.isFor pid token := by simpa [StopSession.isFor, hs] using hc
    have hro := wp_rollback hi hsa (by rw [hs]) had
    refine hro.mono fun _ u hso => ⟨hso.kept, fun hf hl => ?_, ?_⟩
    · have ha : t.core.session.active := by simpa [hs] using hf
      exact ⟨(hso.one ha hl).1.trans (one hf ha).1, (hso.one ha hl).2.trans (one hf ha).2⟩
    · exact hso.updates.trans hg.updates
  · refine fun _ w => ⟨⟨hi.resumes, { hi.core with }⟩, fun _ _ => by simp [hs], hg.updates⟩

theorem wp_renewLocked (pid : ℤ) (token leaseMs : UInt32) (hk : Kept s) :
    (renewLocked pid token leaseMs).wp (fun _ t => Sound s t) s := by
  simp only [renewLocked, getThreadIdList, wp_bind, wp_read, wp_ite, wp_pure, wp_ask]
  refine ⟨fun hc w => ⟨fun _ => .refl hk, fun _ => ?_⟩, fun _ => .refl hk⟩
  exact wp_renewListed leaseMs w.threads hk hc

/-- Only the register transaction moved. -/
def Remutated (s t : KernelState) : Prop := ∃ mutation, t = ⟨{ s.core with mutation }, s.resumes⟩

theorem Remutated.sound (hr : Remutated s t) (hk : Kept s) : Sound s t := by
  obtain ⟨mutation, rfl⟩ := hr
  exact ⟨⟨hk.resumes, { hk.core with }⟩, fun _ _ => ⟨rfl, rfl⟩, rfl⟩

section Mutations
open Prog (Preserves)
variable {I : KernelState → Prop}

theorem allSuspended_preserves (c e : ℤ) (ts : List ℤ) : Preserves I (allSuspended c e ts) := by
  induction ts with
  | nil => exact .pure true
  | cons thread rest ih =>
    exact .ite ih (.bind (.ask _) fun _ => .ite (.pure false) ih)

theorem stopSessionIsCurrentLocked_preserves (c : Caller) (stopToken : UInt32)
    (now : UInt64) (rmi : Bool) :
    Preserves I (stopSessionIsCurrentLocked c stopToken now rmi) :=
  .bind (.read _) fun _ => .ite (.pure false) (.bind (.ask _) fun _ =>
    .ite (allSuspended_preserves _ _ _) (.pure false))

theorem matchSessionThread_preserves (suspended : List ℤ) (target f : ℤ) (ts : List ℤ) :
    Preserves I (matchSessionThread suspended target f ts) := by
  induction ts generalizing f with
  | nil => exact .pure f
  | cons thread rest ih =>
    refine .ite (.bind (.ask _) fun _ => .ite (ih f) (.bind (.ask _) fun _ => ?_)) (ih f)
    exact .ite (.ite (.pure (-1)) (ih thread)) (ih f)

theorem findSessionThreadLocked_preserves (target : ℤ) :
    Preserves I (findSessionThreadLocked target) :=
  .ite (.pure (-1)) (.bind (.ask _) fun _ =>
    .ite (.bind (.read _) fun _ => matchSessionThread_preserves _ _ _ _) (.pure (-1)))

theorem lift_remutates {α : Type} (p : Mutation α) (s : KernelState) :
    Preserves (Remutated s) (p.lift mutationPart) :=
  .lift mutationPart fun _ hm => by
    obtain ⟨mutation, rfl⟩ := hm
    exact wp_of_forall _ fun _ l => ⟨l, rfl⟩

theorem mutateLocked_remutates {α : Type} (c : Caller) (stopToken : UInt32) (target : ℤ)
    (rmi : Bool) (fail : ℤ → α) (m : Identity → Mutation α)
    (s : KernelState) : Preserves (Remutated s)
      (mutateLocked c stopToken target rmi fail m) :=
  .bind (.ask _) fun _ => .bind (stopSessionIsCurrentLocked_preserves _ _ _ _) fun _ =>
    .ite (.bind (findSessionThreadLocked_preserves _) fun _ =>
      .ite (.pure _) (lift_remutates _ s)) (.pure _)

theorem restoreLocked_remutates (c : Caller) (hn : Handle) (s : KernelState) :
    Preserves (Remutated s) (restoreLocked backend c hn) :=
  .bind (.read _) fun _ => .ite (.pure _) (.bind (findSessionThreadLocked_preserves _) fun _ =>
    .ite (.pure _) (.bind (.ask _) fun _ => .ite (.pure _) (lift_remutates _ s)))

theorem wp_of_remutates {α : Type} {p : Region α} (hk : Kept s)
    (hr : Preserves (Remutated s) p) : p.wp (fun _ t => Sound s t) s :=
  (hr s ⟨s.core.mutation, rfl⟩).mono fun _ _ hm => hm.sound hk

end Mutations

theorem wp_stopSessionIsCurrentLocked (c : Caller) (st : UInt32) (now : UInt64)
    (s : KernelState) :
    (stopSessionIsCurrentLocked c st now true).wp (fun cr t => t = s ∧
      (cr → s.core.session.isFor c.pid st ∧
        s.core.session.hardwareMutation = false)) s := by
  refine wp_and (stopSessionIsCurrentLocked_preserves _ _ _ _ s rfl) ?_
  simp only [stopSessionIsCurrentLocked, wp_bind, wp_read, wp_ite, wp_pure, not_or]
  refine ⟨fun _ h => (by cases h), fun hc => wp_of_forall s fun listing t => ?_⟩
  have hk : s.core.session.isFor c.pid st ∧
      s.core.session.hardwareMutation = false := by simpa using And.intro hc.1 hc.2.2.1
  exact ⟨fun _ => wp_of_forall t fun _ _ _ => hk, fun _ h => by cases h⟩

theorem CoreKept.admitted (hk : CoreKept core) (hst : core.session.hardwareMutation = false)
    (me : ℕ) {u : PendingUpdate} (hc : core.session.isFor u.pid u.stopToken) (token : UInt32) :
    CoreKept { core with
      session := { core.session with
        hardwareMutation := true, hardwareRestorePending := false, hardwareToken := token }
      updates := update core.updates me (some u) } := by
  have ho {i : ℕ} {v : PendingUpdate} (hr : core.unloading = false)
      (hp : update core.updates me (some u) i = some v) : i = me ∧ v = u := by
    by_cases hs : i = me
    · subst hs
      simpa [eq_comm] using hp
    · have ha := hk.updates_none hst hr i
      simp [hs, ha] at hp
  refine ⟨hk.owned, fun i v hp hr => ?_, fun i j v w hf hse hr => ?_⟩
  · obtain ⟨-, rfl⟩ := ho hr hp
    exact ⟨hc, rfl⟩
  · exact (ho hr hf).1.trans (ho hr hse).1.symm

theorem wp_admitUpdate (me : ℕ) (c : Caller) (token st : UInt32) (hk : Kept s) :
    (admitUpdate me c token st).wp (fun admitted t => Kept t ∧ OneSession s t ∧
      (∀ j, j ≠ me → t.core.updates j = s.core.updates j) ∧
      (admitted = true → (t.core.updates me).isSome) ∧
      (admitted = false → t.core.updates me = s.core.updates me)) s := by
  simp only [admitUpdate, getSystemTimeWide, onCore, wp_bind, wp_ask, wp_ite, wp_modify, wp_pure]
  refine fun w => (wp_stopSessionIsCurrentLocked c st w.time s).mono ?_
  rintro current _ ⟨rfl, hkn⟩
  rename_i s
  constructor
  · intro yes
    obtain ⟨hif, hs⟩ := hkn yes
    have admitted := hk.core.admitted (u := ⟨c.pid, st⟩) hs me hif token
    refine ⟨⟨hk.resumes, admitted⟩, fun _ _ => ⟨rfl, rfl⟩, fun j ho => ?_, by simp, by simp⟩
    simp [ho]
  · exact fun _ => ⟨hk, .refl s, fun _ _ => rfl, by simp, fun _ => rfl⟩

/-- The update in flight is the caller's own, so taking it back leaves none. -/
theorem CoreKept.recorded (hk : CoreKept core) {me : ℕ} (hm : (core.updates me).isSome) :
    CoreKept { core with updates := update core.updates me none } ∧
      (core.unloading = false → ∀ i, update core.updates me none i = none) := by
  obtain ⟨u, hp⟩ := isSome_iff_exists.mp hm
  have none (hr : core.unloading = false) (i : ℕ) : update core.updates me none i = none := by
    by_cases hs : i = me
    · simp [hs]
    · cases ho : core.updates i with
      | none => simp [hs, ho]
      | some v => exact absurd (hk.single i me v u ho hp hr) hs
  refine ⟨⟨hk.owned, fun i v hl hr => ?_, fun i j v w hf hse hr => ?_⟩, none⟩
  · cases (none hr i).symm.trans hl
  · cases (none hr i).symm.trans hf

theorem wp_recordUpdate {me : ℕ} (c : Caller) (token st : UInt32) (r : ℤ)
    (now : UInt64) (kept : Kept s) (mine : (s.core.updates me).isSome) :
    (recordUpdate backend me c token st r now).wp (fun _ t => Kept t ∧
      OneSession s t ∧ t.core.updates = update s.core.updates me none) s := by
  simp only [recordUpdate, onStopSession, onCore, wp_bind, wp_modify, wp_read, wp_ite, wp_pure]
  obtain ⟨hr, none⟩ := kept.core.recorded mine
  refine ⟨fun hc => ?_, fun _ => ⟨⟨kept.resumes, hr⟩, .refl s, trivial⟩⟩
  have hi : CoreKept { s.core with
      session := s.core.session.updated r
      updates := update s.core.updates me Option.none } :=
    ⟨hr.owned, fun i v hl hre => (by cases (none hre i).symm.trans hl), hr.single⟩
  refine wp.mono (wp_resumeWhen backend ⟨kept.resumes, hi⟩ False.elim fun due => ?_) ?_
  · exact ⟨hc.1, (of_decide_eq_true due).2⟩
  · exact fun _ t he => ⟨he.kept, fun _ => he.same, he.updates⟩

theorem wp_releaseLocked (pid : ℤ) (token : UInt32) (r : ℤ) (now : UInt64)
    (hk : Kept s) : (releaseLocked backend pid token r now).wp (fun _ t => Sound s t) s := by
  simp only [releaseLocked, onStopSession, onCore, wp_bind, wp_modify, wp_read, wp_ite, wp_pure]
  have hi : Kept ⟨{ s.core with session := s.core.session.restored }, s.resumes⟩ :=
    ⟨hk.resumes, { hk.core with }⟩
  refine ⟨fun h => ⟨fun hl => ?_, fun _ => ?_⟩, fun _ => .refl hk⟩
  · have hr := wp_resumeSessionLocked backend (.released pid now) hi False.elim ⟨h.1, h.2.1, hl⟩
    exact hr.mono fun _ t he => ⟨he.kept, fun _ => he.same, he.updates⟩
  · exact ⟨hi, fun _ _ => ⟨rfl, rfl⟩, rfl⟩

theorem recovered_frame (ss : StopSession) (r : Option (ℤ × UInt32 × UInt32)) :
    r.elim ss ss.recovered = ss ∨
      r.elim ss ss.recovered = ss.restored := by
  cases r with
  | none => exact .inl rfl
  | some recovery =>
    simp only [elim_some, StopSession.recovered]
    split
    · exact .inr rfl
    · exact .inl rfl

theorem wp_watchdogLocked (r : Option (ℤ × UInt32 × UInt32)) (now : UInt64) (hk : Kept s) :
    (watchdogLocked backend r now).wp (fun _ t => Sound s t) s := by
  simp only [watchdogLocked, onStopSession, onCore, wp_bind, wp_modify, wp_read]
  have hi : Sound s ⟨{ s.core with
      session := (r.elim s.core.session s.core.session.recovered) }, s.resumes⟩ := by
    cases recovered_frame s.core.session r with
    | inl hs =>
      rw [hs]
      exact .refl hk
    | inr hr =>
      rw [hr]
      exact ⟨⟨hk.resumes, { hk.core with }⟩, fun _ _ => ⟨rfl, rfl⟩, rfl⟩
  refine wp.mono (wp_resumeWhen backend hi.kept False.elim fun due => ?_) fun _ t he => ?_
  · have hkn := of_decide_eq_true due
    exact ⟨hkn.1, hkn.2.2.2⟩
  refine ⟨he.kept, fun hf hl => ?_, he.updates.trans hi.updates⟩
  have hs := he.same hl
  cases recovered_frame s.core.session r with
  | inl heq => simpa [heq] using hs
  | inr hr => simpa [hr, StopSession.restored] using hs

theorem wp_moduleStopLocked (hk : Kept s) :
    (moduleStopLocked backend).wp (fun _ t => Sound s t) s := by
  simp only [moduleStopLocked, onCore, wp_bind, wp_modify, wp_read]
  refine wp.mono (wp_resumeWhen backend ⟨hk.resumes, ?_⟩ False.elim fun _ => rfl) ?_
  · exact ⟨hk.core.owned, fun _ _ _ h => (by cases h), fun _ _ _ _ _ _ h => (by cases h)⟩
  · exact fun _ t he => ⟨he.kept, fun _ => he.same, he.updates⟩

/-! The calls. -/

section Calls
variable {i : ℕ} {s : KernelState} {α β : Type}

theorem holds_callKernel (f : KernelReply → α) {Q : α → KernelState → Prop}
    (h : ∀ a t, t.core.updates i = s.core.updates i → Q a t) :
    stopRules.Holds i (callKernel f) Q s := fun t hk hm ans _ =>
  ⟨hk, ⟨.refl t, fun _ _ => rfl⟩, h (f (ans 0)) t hm⟩

variable (i) in
/-- A call of caller `i` that opens no update. -/
def Plain (p : Syscall α) : Prop :=
  ∀ s, stopRules.Holds i p (fun _ t => t.core.updates i = s.core.updates i) s

namespace Plain

theorem pure (a : α) : Plain i (Pure.pure a : Syscall α) := fun _ => rfl

theorem bind {p : Syscall α} {f : α → Syscall β} (hf : Plain i p)
    (hr : ∀ a, Plain i (f a)) : Plain i (p >>= f) := fun s =>
  (holds_bind p f _ s).mpr ((hf s).mono fun a t hm =>
    (hr a t).mono fun _ _ hl => hl.trans hm)

theorem ite {c : Prop} [Decidable c] {p q : Syscall α} (yes : Plain i p) (no : Plain i q) :
    Plain i (if c then p else q) := by
  split
  · exact yes
  · exact no

theorem call (f : KernelReply → α) : Plain i (callKernel f) := fun _ =>
  holds_callKernel f fun _ _ hm => hm

theorem locked {p : Region α} (hs : ∀ s, Kept s → p.wp (fun _ t => Sound s t) s) :
    Plain i p.atomically := fun _ =>
  holds_atomically fun t hk hm => (hs t hk).mono fun _ _ ha =>
    ⟨ha.kept, ⟨ha.one, fun j _ => congrFun ha.updates j⟩, (congrFun ha.updates i).trans hm⟩

end Plain
end Calls

theorem matchUserThread_plain (i : ℕ) (userThread : ℤ) (ts : List ℤ) :
    Plain i (matchUserThread userThread ts) := by
  induction ts with
  | nil => exact .pure (-1)
  | cons thread rest ih => exact .bind (.call _) fun _ => .ite (.pure thread) ih

theorem beginResult_plain (i : ℕ) (backend : Backend) (c : Caller) (leaseMs : UInt32)
    (eut : ℤ) : Plain i (beginResult backend c leaseMs eut) := by
  have he : Plain i (exemptGuid eut) :=
    .ite (.bind (.call _) fun _ => .ite (.pure _) (matchUserThread_plain i _ _)) (.pure (-1))
  refine .bind he fun guid => .ite (.pure _) (.bind (.call _) fun listing => ?_)
  exact .ite (.pure _) (.locked fun _ hk => wp_beginLocked backend c guid leaseMs _ hk)

theorem vdKernelBeginStop_plain (i : ℕ) (backend : Backend) (c : Caller) (leaseMs : UInt32)
    (eut : ℤ) (storage : Bool) :
    Plain i (vdKernelBeginStop backend c leaseMs eut storage) := by
  refine .ite (.pure _) (.bind (beginResult_plain i backend c leaseMs eut) ?_)
  refine fun r => .bind (.call _) fun copied => .ite (.pure _) (.ite (.pure _) ?_)
  have he := fun s (hk : Kept s) => wp_endLocked backend
    (.beginUncopied c.pid r.token) nofun (fun _ hc => hc) hk
  exact .bind (.locked he) fun _ => .pure _

theorem vdKernelEndStop_plain (i : ℕ) (backend : Backend) (c : Caller) (token : UInt32)
    (storage : Bool) : Plain i (vdKernelEndStop backend c token storage) := by
  have he := fun s (hk : Kept s) => wp_endLocked backend
    (.endStop c.pid token) nofun (fun _ hc => hc) hk
  exact .ite (.pure _) (.bind (.locked he) fun _ => .ite (.call _) (.pure _))

theorem vdKernelReleaseHardwareDebug_plain (i : ℕ) (backend : Backend) (c : Caller)
    (token : UInt32) : Plain i (vdKernelReleaseHardwareDebug backend c token) :=
  .ite (.pure _) (.bind (.call _) fun r => .ite (.pure _) (.bind (.call _) fun now =>
    .locked fun _ hk => wp_releaseLocked backend c.pid token r now hk))

theorem watchdogTurn_plain (i : ℕ) (backend : Backend) : Plain i (watchdogTurn backend) := by
  refine .bind (.call _) fun now => .bind (.call _) fun _ => .ite ?_ (.pure ())
  refine .bind (.locked fun s hk => fun _ => .refl hk) fun recovery => .bind (.call _) ?_
  refine fun recovered => .bind (.call _) fun _ => .ite ?_ (.pure ())
  exact .bind (.locked fun _ hk => wp_watchdogLocked backend _ now hk) fun _ => .pure ()

theorem vdKernelBeginThreadMutation_plain (i : ℕ) (backend : Backend) (c : Caller)
    (r : BeginRequest) : Plain i (vdKernelBeginThreadMutation backend c r) := by
  refine .bind (.call _) fun copied => .ite (.pure _) (.bind (.locked fun s hk =>
    wp_of_remutates hk (mutateLocked_remutates _ _ _ _ _ _ s)) fun b => .ite (.pure _) ?_)
  refine .bind (.call _) fun returned => ?_
  cases b.2 with
  | none => exact .pure _
  | some b =>
    refine .ite (.bind (.locked fun s hk => ?_) fun _ => .pure _) (.pure _)
    exact wp_of_remutates hk (lift_remutates _ s)

theorem mutation_plain {i : ℕ} {p : Region ℤ} (hr : ∀ s, Prog.Preserves (Remutated s) p) :
    Plain i (callKernel (·.status) >>= fun c =>
      if c < 0 then pure c else p.atomically) :=
  .bind (.call _) fun _ => .ite (.pure _) (.locked fun s hk => wp_of_remutates hk (hr s))

/-- The caller's own entry stands from the admission to the record. -/
theorem holds_vdKernelUpdateHardwarePoint (i : ℕ) (c : Caller) (token stopToken : UInt32)
    (r : Bool) (idle : s.core.updates i = none) :
    stopRules.Holds i (vdKernelUpdateHardwarePoint backend i c token stopToken r)
      (fun _ t => t.core.updates i = none) s := by
  rw [vdKernelUpdateHardwarePoint, holds_ite]
  refine ⟨fun _ => idle, fun _ => ?_⟩
  simp only [holds_bind]
  refine holds_callKernel _ fun copied t hca => ?_
  rw [holds_ite]
  refine ⟨fun _ => hca.trans idle, fun _ => (holds_bind ..).mpr ?_⟩
  refine holds_atomically fun u hk hm => ?_
  refine (wp_admitUpdate i c token stopToken hk).mono fun a v ha => ?_
  obtain ⟨inv, one, others, yes, no⟩ := ha
  refine ⟨inv, ⟨one, others⟩, ?_⟩
  cases a with
  | false => exact (no rfl).trans (hm.trans (hca.trans idle))
  | true =>
    simp only [if_true, holds_bind]
    refine holds_callKernel _ fun rs w hf => holds_callKernel _ fun now x hs => ?_
    refine holds_atomically fun y hk hm => ?_
    have hmi : (y.core.updates i).isSome := by
      rw [show y.core.updates i = v.core.updates i from hm.trans (hs.trans hf)]
      exact yes rfl
    refine (wp_recordUpdate backend c token stopToken rs now hk hmi).mono ?_
    rintro resumed z ⟨inv, one, updates⟩
    refine ⟨inv, ⟨one, fun j hot => ?_⟩, ?_⟩
    · simp [updates, hot]
    · simp [updates]

theorem holds_program (i : ℕ) (call : KernelCall) (hi : s.core.updates i = none) :
    stopRules.Holds i (call.program backend i) (fun _ t => t.core.updates i = none) s := by
  have hp {p : Syscall Unit} (hc : Plain i p) :
      stopRules.Holds i p (fun _ t => t.core.updates i = none) s :=
    (hc s).mono fun _ _ hm => hm.trans hi
  cases call with
  | beginStop c lm exempt str =>
    exact hp (.bind (vdKernelBeginStop_plain i _ _ _ _ _) fun _ => .pure ())
  | renewStop c token lm =>
    refine hp (.bind (.ite (.pure _) (.locked fun _ hk => ?_)) fun _ => .pure ())
    exact wp_renewLocked c.pid token lm hk
  | endStop c token str =>
    exact hp (.bind (vdKernelEndStop_plain i _ _ _ _) fun _ => .pure ())
  | updateHardwarePoint c token st r =>
    exact (holds_bind ..).mpr
      (holds_vdKernelUpdateHardwarePoint backend i c token st r hi)
  | releaseHardwareDebug c token =>
    exact hp (.bind (vdKernelReleaseHardwareDebug_plain i _ _ _) fun _ => .pure ())
  | watchdog => exact hp (watchdogTurn_plain i backend)
  | unload =>
    refine hp (.bind (.bind (.call _) fun _ => .ite (.pure _) (.locked fun _ hk => ?_))
      fun _ => .pure ())
    exact wp_moduleStopLocked backend hk
  | beginThreadMutation c r =>
    exact hp (.bind (vdKernelBeginThreadMutation_plain i _ _ _) fun _ => .pure ())
  | stageThreadMutation c r =>
    exact hp (.bind (mutation_plain (mutateLocked_remutates _ _ _ _ _ _)) fun _ => .pure ())
  | commitThreadMutation c hn =>
    exact hp (.bind (mutation_plain (mutateLocked_remutates _ _ _ _ _ _)) fun _ => .pure ())
  | restoreThreadMutation c hn =>
    exact hp (.bind (mutation_plain (restoreLocked_remutates _ _ _)) fun _ => .pure ())

/-! Runs. -/

def Starts (backend : Backend) (i : ℕ) (_ : KernelState) (p : Syscall Unit) : Prop :=
  ∃ call : KernelCall, p = call.program backend i

/-- Any number of callers, the watchdog and the unload among them. -/
abbrev StopRun (backend : Backend) (threads : ℤ → ThreadFile) :
    Config ℕ KernelState (ℕ → KernelReply) → Prop :=
  Run (Starts backend) (loaded threads)

theorem starts_holds {backend : Backend} (i : ℕ) (s : KernelState) (p : Syscall Unit)
    (hs : Starts backend i s p) (_ : Kept s) (hi : s.core.updates i = none) :
    stopRules.Holds i p (fun _ t => t.core.updates i = none) s := by
  obtain ⟨call, rfl⟩ := hs
  exact holds_program backend i call hi

theorem kept_loaded (ts : ℤ → ThreadFile) : Kept (loaded ts) where
  resumes := by simp [loaded]
  core := ⟨by simp [loaded, zeroStopSession], by simp [loaded], by simp [loaded]⟩

/-- Over every interleaving of the regions there is one session at a time, which only
its owner renews or ends by token; a resume outside the rollback of a renewal finds no
mutation open, and every resumed thread is one the session suspended. -/
theorem stopSession_resumes_justified {backend : Backend} {threads : ℤ → ThreadFile}
    {c : Config ℕ KernelState (ℕ → KernelReply)} (run : StopRun backend threads c) :
    (∀ resume ∈ c.shared.resumes, Justified resume) ∧
    (∀ c', Step (Starts backend) c c' → OneSession c.shared c'.shared) ∧
    (c.shared.core.session.active → ∀ caller exempt leaseMs listed,
      (beginLocked backend caller exempt leaseMs listed).wp
        (fun result t => result = failedResult (-2) ∧ t = c.shared) c.shared) ∧
    ∀ pid token, ¬c.shared.core.session.isFor pid token →
      (∀ leaseMs, (renewLocked pid token leaseMs).wp
        (fun result t => result = -5 ∧ t = c.shared) c.shared) ∧
      ∀ agent, (endLocked backend agent pid token).wp
        (fun result t => result = (-5, 0) ∧ t = c.shared) c.shared := by
  have hs : Safe stopRules c := run.safe starts_holds (fun _ => trivial)
    (kept_loaded threads) fun _ => rfl
  refine ⟨hs.inv.resumes, fun c' hn => ?_, fun active caller exempt leaseMs listed => ?_, ?_⟩
  · have hk : c'.shared = c.shared ∨ ∃ i, stopRules.guarantee i c.shared c'.shared :=
      run.guarantee starts_holds (fun _ => trivial) (kept_loaded threads) (fun _ => rfl) hn
    cases hk with
    | inl hsa => exact hsa ▸ .refl c.shared
    | inr own =>
      obtain ⟨i, one, -⟩ := own
      exact one
  · simp [beginLocked, active]
  · intro pid token ho
    exact ⟨fun _ => by simp [renewLocked, ho], fun _ => by simp [endLocked, ho]⟩

def anyThreads : ℤ → ThreadFile := fun _ => ⟨fun _ _ => 0, fun _ => 0, fun _ => 0, true⟩

def reply (status : ℤ) (threads : List ℤ) : KernelReply :=
  ⟨status, threads.length, threads, 0, false,
    ⟨0, fun _ _ => false, fun _ => false, fun _ => false, 0, 0, fun _ => false, 0⟩⟩

/-- A stream of plain successes after the listed answers. -/
def answers (script : List KernelReply) : ℕ → KernelReply := fun k => script.getD k (reply 0 [])

abbrev Turn := Move ℕ KernelState (ℕ → KernelReply)

def started (i : ℕ) (call : KernelCall) : Turn := .call i (call.program threadMutationBackend i)

/-- Thread 1 of process 7 stops the other two; thread 2 was suspended before. -/
def beginTurns : List Turn :=
  [started 0 (.beginStop ⟨7, 1⟩ 1000 (-1) true), .act 0 (answers [reply 0 [1, 2, 3]]),
    .act 0 (answers [reply 0 [], reply 0 [], reply 1 []]),
    .act 0 (answers [])]

def endTurns : List Turn :=
  [started 0 (.endStop ⟨7, 1⟩ 1 true), .act 0 (answers []), .act 0 (answers [])]

theorem started_starts {ts : List Turn} {i : ℕ} {p : Syscall Unit}
    (ho : ∀ turn ∈ ts, (∃ i call, turn = started i call) ∨ ∃ i w, turn = .act i w)
    (mem : .call i p ∈ ts) (s : KernelState) : Starts threadMutationBackend i s p := by
  obtain ⟨j, call, hs⟩ | ⟨j, w, hs⟩ := ho _ mem
  · cases hs
    exact ⟨call, rfl⟩
  · cases hs

theorem replayed_run {ts : List Turn} {c : Config ℕ KernelState (ℕ → KernelReply)}
    (ho : ∀ turn ∈ ts, (∃ i call, turn = started i call) ∨ ∃ i w, turn = .act i w)
    (hr : Config.replay ts ⟨loaded anyThreads, fun _ => pure ()⟩ = some c) :
    StopRun threadMutationBackend anyThreads c :=
  Run.replay (fun _ _ mem s => started_starts ho mem s) .init hr

theorem stopSession_resumes_justified_ended : ∃ c : Config ℕ KernelState (ℕ → KernelReply),
    c.shared.resumes.map (·.thread) = [3] ∧ ∀ resume ∈ c.shared.resumes, Justified resume := by
  have he : (Config.replay (beginTurns ++ endTurns)
      ⟨loaded anyThreads, fun _ => pure ()⟩).map (fun c => c.shared.resumes.map (·.thread)) =
      some [3] := by decide +kernel
  obtain ⟨c, hr, hre⟩ := map_eq_some_iff.mp he
  have run := replayed_run (by simp [beginTurns, endTurns, started]) hr
  exact ⟨c, hre, (stopSession_resumes_justified run).1⟩

/-- The owner's update is admitted; its other thread renews, finds thread 2 running
and a fourth thread that cannot be suspended. -/
def renewTurns : List Turn :=
  [started 0 (.updateHardwarePoint ⟨7, 1⟩ 5 1 true), .act 0 (answers []),
    .act 0 (answers [reply 0 [], reply 0 [], reply 0 [1, 2, 3], reply 1 [], reply 1 []]),
    started 1 (.renewStop ⟨7, 9⟩ 1 1000),
    .act 1 (answers ([reply 0 [], reply 0 [1, 2, 3, 4], reply 1 []] ++
      List.replicate 8 (reply 0 []) ++ [reply (-1) []]))]

/-- The rollback of a renewal resumes a thread that was found suspended when the
session began, while an admitted update is still in flight. -/
theorem renewal_resumes_during_update : ∃ c, StopRun threadMutationBackend anyThreads c ∧
    ∃ resume ∈ c.shared.resumes, resume.core.session.hardwareMutation = true ∧
      (resume.core.updates 0).isSome ∧ resume.thread ∈ resume.core.found := by
  have he : (Config.replay (beginTurns ++ renewTurns)
      ⟨loaded anyThreads, fun _ => pure ()⟩).map (fun c => c.shared.resumes.map fun resume =>
        (resume.core.session.hardwareMutation, (resume.core.updates 0).isSome,
          decide (resume.thread ∈ resume.core.found))) = some [(true, true, true)] := by
    decide +kernel
  obtain ⟨c, hr, hre⟩ := map_eq_some_iff.mp he
  refine ⟨c, replayed_run (by simp [beginTurns, renewTurns, started]) hr, ?_⟩
  obtain ⟨resume, mem, hs⟩ := mem_map.mp (hre ▸ mem_singleton_self (true, true, true))
  simp only [Prod.mk.injEq, decide_eq_true_eq] at hs
  exact ⟨resume, mem, hs⟩

/-- Until the module is unloaded an admitted hardware update is the only one in flight, and its
session keeps the stop. -/
theorem update_in_flight_alone {backend : Backend} {threads : ℤ → ThreadFile}
    {c : Config ℕ KernelState (ℕ → KernelReply)} (run : StopRun backend threads c)
    (loaded : c.shared.core.unloading = false) {i : ℕ} {u : PendingUpdate}
    (admitted : c.shared.core.updates i = some u) :
    (c.shared.core.session.isFor u.pid u.stopToken ∧
      c.shared.core.session.hardwareMutation = true) ∧
    ∀ j v, c.shared.core.updates j = some v → j = i := by
  have hs : Safe stopRules c := run.safe starts_holds (fun _ => trivial)
    (kept_loaded threads) fun _ => rfl
  have hk := hs.inv.core
  exact ⟨hk.inFlight i u admitted loaded, fun j v h => hk.single j i v u h admitted loaded⟩

theorem update_in_flight_alone_renewal : ∃ c u, StopRun threadMutationBackend anyThreads c ∧
    c.shared.core.updates 0 = some u ∧ c.shared.core.session.isFor u.pid u.stopToken := by
  have he : (Config.replay (beginTurns ++ renewTurns) ⟨loaded anyThreads, fun _ => pure ()⟩).map
      (fun c => (c.shared.core.unloading, (c.shared.core.updates 0).isSome)) =
      some (false, true) := by decide +kernel
  obtain ⟨c, hr, he⟩ := map_eq_some_iff.mp he
  obtain ⟨hl, hu⟩ := Prod.mk.inj he
  obtain ⟨u, hu⟩ := isSome_iff_exists.mp hu
  have run := replayed_run (by simp [beginTurns, renewTurns, started]) hr
  exact ⟨c, u, run, hu, (update_in_flight_alone run hl hu).1.1⟩

end VitaDebugger.StopResume
