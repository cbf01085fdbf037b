import VitaDebugger.RelyGuarantee
import VitaDebugger.ThreadMutation

/-! What a register mutation may leave behind. While a transaction is open its
target differs from the base only in registers the transaction may write, and the
transaction is cleared only for a reason that accounts for every write. -/

namespace VitaDebugger.MutationRestore
open AtomicProgram RelyGuarantee Rules ThreadMutation Function

/-- A value of one core register that a transaction over `original` may leave. -/
def CoreAllowed (mask : UInt32) (original : CoreRegisters) (bank : Fin coreBankCount)
    (register : CoreRegister) (value : UInt32) : Prop :=
  value = original bank register ∨ (selectedUserCoreBank original = some bank ∧
    (∃ index : UInt32, coreRegister index.toNat = some register ∧
      mask &&& (1 : UInt32) <<< index ≠ 0) ∧
    (register = .cpsr → (original bank .cpsr ^^^ value) &&& ~~~cpsrWritableMask = 0))

def CoreFrame (mask : UInt32) (original current : CoreRegisters) : Prop :=
  ∀ bank register, CoreAllowed mask original bank register (current bank register)

structure SameRegisters (file base : ThreadFile) : Prop where
  core : file.core = base.core
  d : file.d = base.d
  fpscrEntry : file.fpscrEntry = base.fpscrEntry

abbrev target (s : MutationState) : ThreadFile := s.threads s.session.identity.targetGuid

/-- An open core transaction. -/
structure CoreOpen (mask : UInt32) (s : MutationState) : Prop where
  bank : s.session.bankMask = coreBank
  original : s.session.originalCore = s.base.core
  desired : CoreFrame mask s.base.core s.session.desiredCore
  core : CoreFrame mask s.base.core (target s).core
  d : (target s).d = s.base.d
  fpscrEntry : (target s).fpscrEntry = s.base.fpscrEntry

/-- An open VFP transaction; the second raw FPSCR entry is evidence only. -/
structure VfpOpen (s : MutationState) : Prop where
  bank : s.session.bankMask = vfpBank
  originalD : s.session.originalVfp.d = s.base.d
  originalFpscr : s.session.originalVfp.fpscrEntry = s.base.fpscrEntry
  desired : s.session.desiredVfp.fpscrEntry 1 = s.base.fpscrEntry 1
  core : (target s).core = s.base.core
  fpscrEntry : (target s).fpscrEntry 1 = s.base.fpscrEntry 1

/-- The invariant of every state, between calls and inside them. -/
structure Kept (mask : UInt32) (s : MutationState) : Prop where
  opened : s.session.state ≠ .empty → CoreOpen mask s ∨ VfpOpen s
  clean : s.session.state ≠ .empty → s.written = false → SameRegisters (target s) s.base
  fresh : s.session.state = .snapshotted → s.written = false
  staged : s.session.state ≠ .empty →
    s.session.stagedBanks = s.session.bankMask ∨ (s.session.stagedBanks = 0 ∧ s.written = false)

/-- The registers of the target are those the transaction asked for. -/
def HoldsDesired (s : MutationState) : Prop :=
  (s.session.bankMask = coreBank → (target s).core = s.session.desiredCore) ∧
  (s.session.bankMask = vfpBank → (target s).d = s.session.desiredVfp.d ∧
    (target s).fpscrEntry = s.session.desiredVfp.fpscrEntry)

/-- What must hold for an open transaction to be cleared for a cause. -/
def Justified (commits : Prop) (s : MutationState) : Cause → Prop
  | .beginFailed => False
  | .unwritten => s.written = false
  | .committed => commits ∧ HoldsDesired s
  | .restored => SameRegisters (target s) s.base
  | .gone => (target s).alive = false

/-- The permitted changes: a transaction that ends leaves the threads alone. -/
def Ending (commits : Prop) (s t : MutationState) : Prop :=
  s.session.state ≠ .empty → t.session.state = .empty →
    t.threads = s.threads ∧ ∃ cause, t.ended = some cause ∧ Justified commits s cause

abbrev mutationRules (mask : UInt32) (commits : Prop) : Rules Unit MutationState :=
  .sequential (Kept mask) (Ending commits) fun _ => True

variable {mask : UInt32} {s t : MutationState}

theorem Kept.coreOpen (hk : Kept mask s) (ho : s.session.state ≠ .empty)
    (hb : s.session.bankMask = coreBank) : CoreOpen mask s :=
  (hk.opened ho).resolve_right fun vfp => absurd (hb.symm.trans vfp.bank) (by decide)

theorem Kept.vfpOpen (hk : Kept mask s) (ho : s.session.state ≠ .empty)
    (hb : s.session.bankMask = vfpBank) : VfpOpen s :=
  (hk.opened ho).resolve_left fun hc => absurd (hb.symm.trans hc.bank) (by decide)

theorem Kept.of_empty (he : s.session.state = .empty) : Kept mask s where
  opened ho := absurd he ho
  clean ho := absurd he ho
  fresh hs := nomatch he.symm.trans hs
  staged ho := absurd he ho

/-- Nothing but exits happened: the session and every register are the same. -/
structure Unmoved (s t : MutationState) : Prop where
  session : t.session = s.session
  base : t.base = s.base
  written : t.written = s.written
  registers : ∀ guid, SameRegisters (t.threads guid) (s.threads guid)
  exits : ∀ guid, (s.threads guid).alive = false → (t.threads guid).alive = false

theorem Unmoved.refl (s : MutationState) : Unmoved s s :=
  ⟨rfl, rfl, rfl, fun _ => ⟨rfl, rfl, rfl⟩, fun _ => id⟩

theorem SameRegisters.trans {a b c : ThreadFile} (hf : SameRegisters a b)
    (hs : SameRegisters b c) : SameRegisters a c :=
  ⟨hf.core.trans hs.core, hf.d.trans hs.d, hf.fpscrEntry.trans hs.fpscrEntry⟩

theorem Unmoved.trans {u : MutationState} (hf : Unmoved s t) (hs : Unmoved t u) : Unmoved s u where
  session := hs.session.trans hf.session
  base := hs.base.trans hf.base
  written := hs.written.trans hf.written
  registers g := (hs.registers g).trans (hf.registers g)
  exits g hd := hs.exits g (hf.exits g hd)

theorem Unmoved.exitThreads (s : MutationState) (w : MutationReply) : Unmoved s (s.exitThreads w) :=
  ⟨rfl, rfl, rfl, fun _ => ⟨rfl, rfl, rfl⟩, fun guid hd => by
    simp [MutationState.exitThreads, ThreadFile.exit, hd]⟩

theorem Unmoved.target (hu : Unmoved s t) : SameRegisters (target t) (target s) := by
  have hs := hu.registers s.session.identity.targetGuid
  simpa only [MutationRestore.target, hu.session] using hs

theorem Unmoved.kept (hu : Unmoved s t) (hk : Kept mask s) : Kept mask t := by
  have hs := hu.target
  constructor
  · rw [hu.session]
    intro ho
    refine (hk.opened ho).imp (fun hc => ?_) fun vfp => ?_
    · exact ⟨hu.session ▸ hc.bank, hu.session ▸ hu.base ▸ hc.original,
        hu.session ▸ hu.base ▸ hc.desired, hs.core ▸ hu.base ▸ hc.core,
        hs.d.trans (hu.base ▸ hc.d), hs.fpscrEntry.trans (hu.base ▸ hc.fpscrEntry)⟩
    refine ⟨hu.session ▸ vfp.bank, hu.session ▸ hu.base ▸ vfp.originalD,
      hu.session ▸ hu.base ▸ vfp.originalFpscr,
      hu.session ▸ hu.base ▸ vfp.desired, hs.core.trans (hu.base ▸ vfp.core), ?_⟩
    rw [hs.fpscrEntry, hu.base]
    exact vfp.fpscrEntry
  · rw [hu.session, hu.written, hu.base]
    exact fun ho hun => hs.trans (hk.clean ho hun)
  · rw [hu.session, hu.written]
    exact hk.fresh
  · rw [hu.session, hu.written]
    exact hk.staged

theorem Unmoved.justified {commits : Prop} (hu : Unmoved s t)
    {cause : Cause} (hj : Justified commits s cause) : Justified commits t cause := by
  have hs := hu.target
  cases cause with
  | beginFailed => exact hj
  | unwritten => exact hu.written.trans hj
  | committed =>
    obtain ⟨hp, hc, vfp⟩ := hj
    refine ⟨hp, fun hb => ?_, fun hb => ?_⟩
    · rw [hu.session] at hb ⊢
      exact hs.core.trans (hc hb)
    · rw [hu.session] at hb ⊢
      exact ⟨hs.d.trans (vfp hb).1, hs.fpscrEntry.trans (vfp hb).2⟩
  | restored =>
    change SameRegisters _ _
    rw [hu.base]
    exact hs.trans hj
  | gone =>
    change (t.threads _).alive = false
    rw [hu.session]
    exact hu.exits _ hj

variable {bank : UInt32} {staged : MutationSession} {identity : Identity}
  {rs : CoreRegisters} {backend : Option Backend} {r : WriteRequest}

section Programs
variable {commits : Prop}

theorem ending_of_session (hs : t.session = s.session) :
    Ending commits s t := fun ho he => absurd (hs ▸ he) ho

theorem holds_unmoved {α : Type} {f : MutationState → MutationReply → α × MutationState}
    {Q : α → MutationState → Prop} (hs : ∀ w, Unmoved s (f s w).2)
    (h : ∀ w, Q (f s w).1 (f s w).2) :
    (mutationRules mask commits).Holds () (Prog.perform f) Q s :=
  sequential_perform fun hk w =>
    ⟨(hs w).kept hk, ending_of_session (hs w).session, h w⟩

theorem holds_callBackend :
    (mutationRules mask commits).Holds () callBackend (fun _ t => Unmoved s t) s :=
  holds_unmoved (Unmoved.exitThreads s) (Unmoved.exitThreads s)

theorem holds_callStatus (identity : Identity) :
    (mutationRules mask commits).Holds () (callStatus identity) (fun result t => Unmoved s t ∧
      (result = 0 → (t.threads identity.targetGuid).alive = false)) s := by
  refine holds_unmoved (Unmoved.exitThreads s) fun w => ⟨Unmoved.exitThreads s w, ?_⟩
  dsimp only
  split
  · simp
  · next hl =>
    intro hz
    simpa [hz] using hl

theorem holds_callSnapshotCore (guid : ℤ) :
    (mutationRules mask commits).Holds () (callSnapshotCore guid) (fun r t => Unmoved s t ∧
      r.2 = (t.threads guid).core) s :=
  holds_unmoved (Unmoved.exitThreads s) fun w => ⟨Unmoved.exitThreads s w, rfl⟩

theorem holds_callSnapshotVfp (guid : ℤ) :
    (mutationRules mask commits).Holds () (callSnapshotVfp guid) (fun r t => Unmoved s t ∧
      r.2.d = (t.threads guid).d ∧ r.2.fpscrEntry = (t.threads guid).fpscrEntry) s :=
  holds_unmoved (Unmoved.exitThreads s) fun w => ⟨Unmoved.exitThreads s w, rfl, rfl⟩

theorem eq_of_coreEqual {left right : CoreRegisters} (he : coreEqual left right = true) :
    left = right := by
  funext bank register
  exact of_decide_eq_true he bank register

theorem eq_of_vfpEqual {left right : VfpRegisters} (heq : vfpEqual left right = true) :
    left.d = right.d ∧ left.fpscrEntry = right.fpscrEntry := by
  have he := of_decide_eq_true (Bool.and_eq_true _ _ ▸ heq).2
  exact ⟨funext he.1, funext he.2⟩

theorem holds_verifyCore (guid : ℤ) (expected : CoreRegisters) :
    (mutationRules mask commits).Holds () (verifyCore guid expected) (fun result t => Unmoved s t ∧
      (0 ≤ result → (t.threads guid).core = expected)) s := by
  rw [verifyCore, holds_bind]
  refine (holds_callSnapshotCore guid).mono ?_
  rintro ⟨result, actual⟩ t ⟨hs, hh⟩
  refine ⟨hs, fun ha => ?_⟩
  split_ifs at ha with hf hd
  · exact absurd hf (not_lt.mpr ha)
  · exact absurd ha (by decide)
  · exact hh ▸ eq_of_coreEqual (Bool.not_eq_false _ ▸ hd)

theorem holds_verifyVfp (g : ℤ) (expected : VfpRegisters) :
    (mutationRules mask commits).Holds () (verifyVfp g expected) (fun result t => Unmoved s t ∧
      (0 ≤ result → (t.threads g).d = expected.d ∧
        (t.threads g).fpscrEntry = expected.fpscrEntry)) s := by
  rw [verifyVfp, holds_bind]
  refine (holds_callSnapshotVfp g).mono ?_
  rintro ⟨result, actual⟩ t ⟨hs, hhd, hhf⟩
  refine ⟨hs, fun ha => ?_⟩
  split_ifs at ha with hf hd
  · exact absurd hf (not_lt.mpr ha)
  · exact absurd ha (by decide)
  · have he := eq_of_vfpEqual (Bool.not_eq_false _ ▸ hd)
    exact ⟨hhd.symm.trans he.1, hhf.symm.trans he.2⟩

/-- The session and the base of the transaction are the same. -/
def SameTransaction (s t : MutationState) : Prop := t.session = s.session ∧ t.base = s.base

theorem Unmoved.same (hu : Unmoved s t) : SameTransaction s t := ⟨hu.session, hu.base⟩

theorem SameTransaction.trans {u : MutationState} (hf : SameTransaction s t)
    (hs : SameTransaction t u) : SameTransaction s u :=
  ⟨hs.1.trans hf.1, hs.2.trans hf.2⟩

/-- A core write keeps the frame when the registers asked for are inside it. -/
theorem CoreFrame.write {original : CoreRegisters} {file : ThreadFile}
    (hb : CoreFrame mask original file.core) (ha : CoreFrame mask original rs)
    (w : MutationReply) : CoreFrame mask original (file.writeCore rs w).core := by
  intro bank register
  simp only [ThreadFile.writeCore]
  split
  · exact ha bank register
  · exact hb bank register

theorem holds_callWriteCore (ho : s.session.state ≠ .empty)
    (hb : s.session.bankMask = coreBank) (hr : s.session.state ≠ .snapshotted)
    (hob : s.session.stagedBanks = s.session.bankMask)
    (ha : CoreFrame mask s.base.core rs) :
    (mutationRules mask commits).Holds () (callWriteCore s.session.identity.targetGuid rs)
      (fun _ t => SameTransaction s t) s := by
  refine sequential_perform fun hk w => ⟨?_, ending_of_session rfl, rfl, rfl⟩
  have hc := hk.coreOpen ho hb
  refine ⟨fun _ => .inl ⟨hb, hc.original, hc.desired, ?_, ?_, ?_⟩, fun _ hu => ?_,
    fun hs => absurd hs hr, fun _ => .inl hob⟩
  · have hf : CoreFrame mask s.base.core
        (((s.exitThreads w).threads s.session.identity.targetGuid).writeCore rs w).core :=
      CoreFrame.write hc.core ha w
    simpa [target] using hf
  · simpa [target, ThreadFile.writeCore] using hc.d
  · simpa [target, ThreadFile.writeCore] using hc.fpscrEntry
  · exact absurd hu (by simp)

theorem holds_callWriteVfp {rs : VfpRegisters} (ho : s.session.state ≠ .empty)
    (hb : s.session.bankMask = vfpBank) (hr : s.session.state ≠ .snapshotted)
    (hob : s.session.stagedBanks = s.session.bankMask)
    (ha : rs.fpscrEntry 1 = s.base.fpscrEntry 1) :
    (mutationRules mask commits).Holds () (callWriteVfp s.session.identity.targetGuid rs)
      (fun _ t => SameTransaction s t) s := by
  refine sequential_perform fun hk w => ⟨?_, ending_of_session rfl, rfl, rfl⟩
  have vfp := hk.vfpOpen ho hb
  refine ⟨fun _ => .inr ⟨hb, vfp.originalD, vfp.originalFpscr, vfp.desired, ?_, ?_⟩,
    fun _ hu => ?_, fun hs => absurd hs hr, fun _ => .inl hob⟩
  · simpa [target, ThreadFile.writeVfp] using vfp.core
  · simp only [target, exitThreads_session, update_self, ThreadFile.writeVfp]
    split
    · exact ha
    · exact vfp.fpscrEntry
  · exact absurd hu (by simp)

theorem holds_clearTransaction {cause : Cause}
    (hj : s.session.state ≠ .empty → Justified commits s cause) :
    (mutationRules mask commits).Holds () (clearTransaction cause backend)
      (fun _ t => t.session.state = .empty) s := by
  have hr : (mutationRules mask commits).Holds () (releaseRetained backend)
      (fun _ t => Unmoved s t) s := by
    rw [releaseRetained, holds_bind]
    refine sequential_read fun _ => ?_
    rw [holds_ite]
    exact ⟨fun _ => holds_callBackend, fun _ => Unmoved.refl s⟩
  rw [clearTransaction, holds_bind]
  refine hr.mono fun _ t hs => ?_
  refine sequential_modify fun _ => ⟨.of_empty rfl, fun ho _ => ⟨rfl, cause, rfl, ?_⟩, rfl⟩
  exact hs.justified (hj (hs.session ▸ ho))

theorem firstError_nonneg {error result : ℤ} (hb : error ≤ 0)
    (ha : 0 ≤ firstError error result) : error = 0 ∧ 0 ≤ result := by
  unfold firstError at ha
  split_ifs at ha <;> omega

theorem firstError_nonpos {error : ℤ} (hb : error ≤ 0) (result : ℤ) :
    firstError error result ≤ 0 := by
  unfold firstError
  split_ifs <;> omega

theorem forBank_self (hp : bank &&& bank ≠ 0) (p : Mutation ℤ) :
    forBank bank bank p = p := if_pos hp

theorem forBank_none {m : UInt32} (ha : m &&& bank = 0) (p : Mutation ℤ) :
    forBank m bank p = pure 0 := if_neg (not_not.mpr ha)

theorem firstError_accepts {a b : ℤ} (ha : 0 ≤ firstError (firstError 0 a) b) : 0 ≤ b :=
  (firstError_nonneg (firstError_nonpos (le_refl 0) a) ha).2

/-- What a restoration leaves: without an error the target equals the base. -/
def Restored (s : MutationState) (error : ℤ) (t : MutationState) : Prop :=
  SameTransaction s t ∧ (0 ≤ error → SameRegisters (target t) t.base)

theorem holds_restoreBanks_core (hk : Kept mask s) (hp : s.session.state = .restorePending)
    (hc : CoreOpen mask s) (hob : s.session.stagedBanks = s.session.bankMask) :
    (mutationRules mask commits).Holds () (restoreBanks s.session) (Restored s) s := by
  have hb := hob.trans hc.bank
  have ho : s.session.state ≠ .empty := by simp [hp]
  have has : CoreFrame mask s.base.core s.session.originalCore := by
    rw [hc.original]
    exact fun _ _ => .inl rfl
  simp only [restoreBanks, hb, forBank_none (show coreBank &&& vfpBank = 0 by decide),
    forBank_self (show coreBank &&& coreBank ≠ 0 by decide), holds_bind, holds_pure]
  refine ((holds_callWriteCore ho hc.bank (by simp [hp]) hob has).keeps hk).mono ?_
  rintro result t ⟨hk', hsa⟩
  refine ((holds_verifyCore _ _).keeps hk').mono ?_
  rintro verified u ⟨hk'', hs, hh⟩
  have hw := hsa.trans hs.same
  refine ⟨hw, fun ha => ?_⟩
  have ho' := hk''.coreOpen (hw.1 ▸ ho) (hw.1 ▸ hc.bank)
  have hr := hh (firstError_accepts ha)
  refine ⟨?_, ho'.d, ho'.fpscrEntry⟩
  rw [hw.2, ← hc.original, ← hr, target, hw.1]

theorem holds_restoreBanks_vfp (hk : Kept mask s) (hp : s.session.state = .restorePending)
    (vfp : VfpOpen s) (hob : s.session.stagedBanks = s.session.bankMask) :
    (mutationRules mask commits).Holds () (restoreBanks s.session) (Restored s) s := by
  have hb := hob.trans vfp.bank
  have ho : s.session.state ≠ .empty := by simp [hp]
  simp only [restoreBanks, hb, forBank_none (show vfpBank &&& coreBank = 0 by decide),
    forBank_self (show vfpBank &&& vfpBank ≠ 0 by decide), holds_bind, holds_pure]
  refine ((holds_callWriteVfp ho vfp.bank (by simp [hp]) hob
    (congrFun vfp.originalFpscr 1)).keeps hk).mono ?_
  rintro result t ⟨hk', hsa⟩
  refine ((holds_verifyVfp _ _).keeps hk').mono ?_
  rintro verified u ⟨hk'', hs, hh⟩
  have hw := hsa.trans hs.same
  refine ⟨hw, fun ha => ?_⟩
  have ho' := hk''.vfpOpen (hw.1 ▸ ho) (hw.1 ▸ vfp.bank)
  obtain ⟨hrd, hrf⟩ := hh (firstError_accepts ha)
  refine ⟨ho'.core, ?_, ?_⟩
  · rw [hw.2, ← vfp.originalD, ← hrd, target, hw.1]
  · rw [hw.2, ← vfp.originalFpscr, ← hrf, target, hw.1]

theorem holds_restoreBanks (hk : Kept mask s) (hp : s.session.state = .restorePending) :
    (mutationRules mask commits).Holds () (restoreBanks s.session) (Restored s) s := by
  have ho : s.session.state ≠ .empty := by simp [hp]
  rcases hk.staged ho with hob | ⟨hn, hu⟩
  · rcases hk.opened ho with hc | vfp
    · exact holds_restoreBanks_core hk hp hc hob
    · exact holds_restoreBanks_vfp hk hp vfp hob
  simp only [restoreBanks, hn, forBank_none (show (0 : UInt32) &&& vfpBank = 0 by decide),
    forBank_none (show (0 : UInt32) &&& coreBank = 0 by decide), holds_bind,
    holds_pure]
  exact ⟨⟨rfl, rfl⟩, fun _ => hk.clean ho hu⟩

theorem Kept.setState (hk : Kept mask s) (ho : s.session.state ≠ .empty)
    {state : TransactionState} (hl : state ≠ .snapshotted) :
    Kept mask { s with session := { s.session with state } } where
  opened _ := (hk.opened ho).imp (fun hc => { hc with }) fun vfp => { vfp with }
  clean _ := hk.clean ho
  fresh hs := absurd hs hl
  staged _ := hk.staged ho

theorem holds_restoreExact (backend : Option Backend) (ho : s.session.state ≠ .empty) :
    (mutationRules mask commits).Holds () (restoreExact backend) (fun _ _ => True) s := by
  rw [restoreExact, holds_bind]
  refine sequential_modify fun hk => ?_
  refine ⟨hk.setState ho (by simp), fun _ he => (nomatch he), ?_⟩
  rw [holds_bind]
  refine sequential_read fun hp => ?_
  rw [holds_ite]
  refine ⟨fun _ => trivial, fun _ => ?_⟩
  rw [holds_bind]
  refine ((holds_callStatus _).keeps hp).mono ?_
  rintro status t ⟨hk', hs, -⟩
  rw [holds_ite, holds_ite]
  refine ⟨fun _ => trivial, fun _ => ⟨fun _ => trivial, fun _ => ?_⟩⟩
  rw [holds_bind, ← hs.session]
  refine (holds_restoreBanks hk' (by rw [hs.session])).mono ?_
  rintro error u ⟨-, hr⟩
  rw [holds_ite]
  refine ⟨fun _ => trivial, fun ha => ?_⟩
  rw [holds_bind]
  exact Holds.mono (holds_clearTransaction fun _ => hr (not_lt.mp ha)) fun _ _ _ => trivial

theorem holds_rollbackAfterError (backend : Option Backend) (error : ℤ)
    (ho : s.session.state ≠ .empty) :
    (mutationRules mask commits).Holds () (rollbackAfterError backend error)
      (fun _ _ => True) s := by
  rw [rollbackAfterError, holds_bind]
  exact (holds_restoreExact backend ho).mono fun _ _ _ => trivial

/-- What the checks of a stage leave for the desired registers. -/
theorem stageCore_frame {session : MutationSession}
    (hf : CoreFrame mask session.originalCore session.desiredCore)
    (hs : stageCore session r mask = .ok rs) :
    CoreFrame mask session.originalCore rs := by
  unfold stageCore at hs
  split_ifs at hs with _ hu
  split at hs
  · next bank register hse hn =>
    dsimp only at hs
    split_ifs at hs with _ hcp
    obtain rfl := Except.ok.inj hs
    intro b' register'
    by_cases hh : b' = bank ∧ register' = register
    · obtain ⟨rfl, rfl⟩ := hh
      refine .inr ⟨hse, ⟨r.registerIndex, hn, hu⟩, fun hic => ?_⟩
      subst hic
      simpa using hcp
    have hsa : update session.desiredCore bank (update
        (session.desiredCore bank) register r.valueLow) b' register' =
        session.desiredCore b' register' := by
      by_cases row : b' = bank
      · subst row
        simp [update_of_ne fun hc => hh ⟨rfl, hc⟩]
      · simp [row]
    rw [hsa]
    exact hf b' register'
  · exact nomatch hs
  · exact nomatch hs

theorem stageVfp_entry {session : MutationSession} {rs : VfpRegisters}
    (hs : stageVfp session r = .ok rs) :
    rs.fpscrEntry 1 = session.desiredVfp.fpscrEntry 1 := by
  unfold stageVfp at hs
  split_ifs at hs
  · obtain rfl := Except.ok.inj hs
    rfl
  · obtain rfl := Except.ok.inj hs
    simp

/-- A session whose desired registers were changed within the frame. -/
structure Staging (mask : UInt32) (s : MutationState) (bank : UInt32) (staged : MutationSession) :
    Prop where
  bankMask : s.session.bankMask = bank
  session : (bank = coreBank ∧ ∃ desiredCore, CoreFrame mask s.base.core desiredCore ∧
      staged = { s.session with desiredCore }) ∨
    (bank = vfpBank ∧ ∃ desiredVfp : VfpRegisters,
      desiredVfp.fpscrEntry 1 = s.base.fpscrEntry 1 ∧ staged = { s.session with desiredVfp })

/-- The state whose obligation is published before the write. -/
abbrev obliged (s : MutationState) (bank : UInt32) (staged : MutationSession) : MutationState :=
  { s with session :=
    { staged with stagedBanks := staged.stagedBanks ||| bank, state := .restorePending } }

section
variable (st : Staging mask s bank staged)
include st

theorem Staging.banks (hk : Kept mask s)
    (ho : s.session.state ≠ .empty) : staged.stagedBanks ||| bank = staged.bankMask := by
  have hs : staged.stagedBanks = s.session.stagedBanks ∧ staged.bankMask = bank := by
    rcases st.session with ⟨-, _, -, rfl⟩ | ⟨-, _, -, rfl⟩
    · exact ⟨rfl, st.bankMask⟩
    · exact ⟨rfl, st.bankMask⟩
  rw [hs.1, hs.2]
  rcases hk.staged ho with hw | ⟨hn, -⟩
  · rw [hw, st.bankMask, UInt32.or_self]
  · rw [hn, UInt32.zero_or]

theorem Staging.kept (hk : Kept mask s)
    (ho : s.session.state ≠ .empty) : Kept mask (obliged s bank staged) := by
  have hb := st.banks hk ho
  obtain ⟨hbm, ⟨rfl, desired, hf, rfl⟩ | ⟨rfl, desired, he, rfl⟩⟩ := st
  · have hc := hk.coreOpen ho hbm
    exact ⟨fun _ => .inl { hc with desired := hf }, fun _ => hk.clean ho, nofun, fun _ => .inl hb⟩
  · have vfp := hk.vfpOpen ho hbm
    exact ⟨fun _ => .inr { vfp with desired := he }, fun _ => hk.clean ho, nofun, fun _ => .inl hb⟩

theorem holds_writeDesired (hk : Kept mask s)
    (ho : s.session.state ≠ .empty) : (mutationRules mask commits).Holds ()
      (writeDesired s.session.identity.targetGuid bank staged)
      (fun _ t => SameTransaction (obliged s bank staged) t) (obliged s bank staged) := by
  have hb := st.banks hk ho
  obtain ⟨hbm, ⟨rfl, desired, hf, rfl⟩ | ⟨rfl, desired, he, rfl⟩⟩ := st
  · exact holds_callWriteCore (by simp) hbm (by simp) hb hf
  · exact holds_callWriteVfp (by simp) hbm (by simp) hb he

end

theorem holds_verifyDesired (guid : ℤ) (bank : UInt32) (session : MutationSession) :
    (mutationRules mask commits).Holds () (verifyDesired guid bank session)
      (fun _ t => Unmoved s t) s := by
  rw [verifyDesired, holds_ite]
  exact ⟨fun _ => (holds_verifyCore _ _).mono fun _ _ h => h.1,
    fun _ => (holds_verifyVfp _ _).mono fun _ _ h => h.1⟩

theorem holds_stageWrite (backend : Option Backend) (hs : Staging mask s bank staged)
    (hk : Kept mask s) (ho : s.session.state ≠ .empty) :
    (mutationRules mask commits).Holds ()
      (stageWrite s.session.identity.targetGuid bank staged backend) (fun _ _ => True) s := by
  rw [stageWrite, holds_bind]
  refine sequential_modify fun _ => ⟨hs.kept hk ho, fun _ he => (nomatch he), ?_⟩
  rw [holds_bind]
  refine (holds_writeDesired hs hk ho).mono fun wrote t hsa => ?_
  have ho' : t.session.state ≠ .empty := by simp [hsa.1]
  rw [holds_ite]
  refine ⟨fun _ => holds_rollbackAfterError backend wrote ho', fun _ => ?_⟩
  rw [holds_bind]
  refine (holds_verifyDesired _ bank staged).mono fun verified u hst => ?_
  have ho'' : u.session.state ≠ .empty := hst.session ▸ ho'
  rw [holds_ite]
  refine ⟨fun _ => holds_rollbackAfterError backend verified ho'', fun _ => ?_⟩
  rw [holds_bind]
  refine sequential_modify fun hk => ?_
  exact ⟨hk.setState ho'' (by simp), fun _ he => (nomatch he), trivial⟩

/-- The backend handed to a call writes only registers of the mask. -/
def UsesMask (mask : UInt32) (backend : Option Backend) : Prop :=
  ∀ b ∈ backend, b.coreWritableRegisterMask = mask

theorem staging_of_stageDesired (hk : Kept mask s) (hoc : s.session.state ≠ .empty)
    (hb : r.bank = coreBank ∨ r.bank = vfpBank)
    (hs : s.session.bankMask &&& r.bank ≠ 0)
    (ho : stageDesired s.session r mask = .ok staged) :
    Staging mask s r.bank staged := by
  unfold stageDesired at ho
  rcases hk.opened hoc with hc | vfp
  · have hic : r.bank = coreBank := hb.resolve_right fun hiv => by
      rw [hc.bank, hiv] at hs
      exact hs (by decide)
    rw [if_pos hic] at ho
    cases hr : stageCore s.session r mask with
    | error code =>
      rw [hr] at ho
      exact nomatch ho
    | ok rs =>
      rw [hr] at ho
      have hf := stageCore_frame (hc.original ▸ hc.desired) hr
      exact ⟨hc.bank.trans hic.symm, .inl ⟨hic, rs, hc.original ▸ hf,
        (Except.ok.inj ho).symm⟩⟩
  have hiv : r.bank = vfpBank := hb.resolve_left fun hic => by
    rw [vfp.bank, hic] at hs
    exact hs (by decide)
  rw [if_neg (by rw [hiv]; decide)] at ho
  cases hr : stageVfp s.session r with
  | error code =>
    rw [hr] at ho
    exact nomatch ho
  | ok rs =>
    rw [hr] at ho
    exact ⟨vfp.bank.trans hiv.symm, .inr ⟨hiv, rs,
      (stageVfp_entry hr).trans vfp.desired, (Except.ok.inj ho).symm⟩⟩

theorem stage_always (identity : Option Identity) (r : Option WriteRequest)
    (hu : UsesMask mask backend) :
    (mutationRules mask commits).Always () (vdThreadMutationStage identity r backend) := by
  intro s
  rw [vdThreadMutationStage, holds_bind]
  refine sequential_read fun hk => ?_
  split
  · trivial
  next r =>
  simp only [holds_ite]
  refine ⟨fun _ => trivial, fun _ => ⟨fun _ => trivial, fun hr => ⟨fun _ => trivial, fun hv =>
    ⟨fun _ => trivial, fun hsu => ⟨fun _ => trivial, fun _ => ?_⟩⟩⟩⟩⟩
  obtain ⟨-, hb, hs⟩ := not_or.mp hv |>.imp_right not_or.mp
  have ho : s.session.state ≠ .empty := fun he => hr (by simp [he])
  rw [holds_bind]
  refine ((holds_callStatus _).keeps hk).mono ?_
  rintro status t ⟨hk', hst, -⟩
  rw [holds_ite]
  refine ⟨fun _ => trivial, fun _ => ?_⟩
  cases backend with
  | none => exact absurd (UInt32.zero_and) hsu
  | some b =>
    have hw : ((some b).map (·.coreWritableRegisterMask)).getD 0 = mask := hu b rfl
    rw [hw, ← hst.session]
    split
    · trivial
    next staged hou =>
    rw [← hst.session] at ho hs
    refine holds_stageWrite _ (staging_of_stageDesired hk' ho ?_ hs hou) hk' ho
    exact or_iff_not_and_not.mpr hb

theorem holds_forBank {m : UInt32} {p : Mutation ℤ} {fact : MutationState → Prop}
    (h : (mutationRules mask commits).Holds () p (fun r t => Unmoved s t ∧ (0 ≤ r → fact t)) s) :
    (mutationRules mask commits).Holds () (forBank m bank p)
      (fun r t => Unmoved s t ∧ (0 ≤ r → m &&& bank ≠ 0 → fact t)) s := by
  rw [forBank, holds_ite]
  refine ⟨fun _ => h.mono fun r t => And.imp_right fun hh ha _ => hh ha,
    fun hab => ⟨Unmoved.refl s, fun _ hp => absurd hp hab⟩⟩

/-- A commit is the one way out that accepts changed registers. -/
theorem commit_always (hpe : commits) (identity : Option Identity) (handle : Option Handle)
    (backend : Option Backend) :
    (mutationRules mask commits).Always () (vdThreadMutationCommit identity handle backend) := by
  intro s
  rw [vdThreadMutationCommit, holds_bind]
  refine sequential_read fun hk => ?_
  simp only [holds_ite]
  refine ⟨fun _ => trivial, fun _ => ⟨fun _ => trivial, fun hr => ⟨fun _ => trivial, fun _ => ?_⟩⟩⟩
  obtain ⟨hst, hba, -⟩ := not_or.mp hr |>.imp not_not.mp (not_or.mp · |>.imp_left not_not.mp)
  have ho : s.session.state ≠ .empty := by simp [hst]
  rw [holds_bind]
  refine (holds_callStatus _).mono ?_
  rintro status t ⟨hf, -⟩
  rw [holds_ite]
  refine ⟨fun _ => trivial, fun _ => ?_⟩
  rw [holds_bind]
  refine (holds_forBank (holds_verifyCore _ _)).mono ?_
  rintro core u ⟨hse, hhc⟩
  have hs := hf.trans hse
  rw [holds_ite]
  refine ⟨fun _ => holds_rollbackAfterError backend core (hs.session ▸ ho), fun ha => ?_⟩
  rw [holds_bind]
  refine (holds_forBank (holds_verifyVfp _ _)).mono ?_
  rintro vfp v ⟨ht, hhv⟩
  have hs := hs.trans ht
  rw [holds_ite]
  refine ⟨fun _ => holds_rollbackAfterError backend vfp (hs.session ▸ ho), fun ha' => ?_⟩
  rw [holds_bind]
  refine Holds.mono (holds_clearTransaction fun _ => ⟨hpe, fun hb => ?_, fun hb => ?_⟩)
    fun _ _ _ => trivial
  · rw [hs.session] at hb
    rw [target, hs.session]
    have hp : s.session.stagedBanks &&& coreBank ≠ 0 := by
      rw [hba, hb]
      decide
    exact (ht.registers _).core.trans (hhc (not_lt.mp ha) hp)
  rw [hs.session] at hb
  rw [target, hs.session]
  have hp : s.session.stagedBanks &&& vfpBank ≠ 0 := by
    rw [hba, hb]
    decide
  exact hhv (not_lt.mp ha') hp

theorem restore_always (identity : Option Identity) (handle : Option Handle)
    (backend : Option Backend) :
    (mutationRules mask commits).Always () (vdThreadMutationRestore identity handle backend) := by
  intro s
  rw [vdThreadMutationRestore, holds_bind]
  refine sequential_read fun hk => ?_
  simp only [holds_ite, holds_bind]
  refine ⟨fun _ => trivial, fun _ => ⟨fun hs => ?_, fun _ => ⟨fun _ => trivial, fun hl => ?_⟩⟩⟩
  · exact Holds.mono (holds_clearTransaction fun _ => hk.fresh hs) fun _ _ _ => trivial
  · exact holds_restoreExact backend fun he => hl (by simp [he])

theorem cleanup_always (ownerPid : ℤ) (stopToken : UInt32) (backend : Option Backend) :
    (mutationRules mask commits).Always ()
      (vdThreadMutationCleanup ownerPid stopToken backend) := by
  intro s
  rw [vdThreadMutationCleanup, holds_bind]
  refine sequential_read fun hk => ?_
  simp only [holds_ite, holds_bind]
  refine ⟨fun _ => trivial, fun ho => ⟨fun _ => trivial, fun _ => ⟨fun hs => ?_,
    fun _ => ⟨fun _ => trivial, fun _ => ?_⟩⟩⟩⟩
  · exact Holds.mono (holds_clearTransaction fun _ => hk.fresh hs) fun _ _ _ => trivial
  refine (holds_callStatus _).mono ?_
  rintro status t ⟨hst, hg⟩
  refine ⟨fun hz => ?_, fun _ => ⟨fun _ => trivial, fun _ => ?_⟩⟩
  · refine (holds_clearTransaction fun _ => ?_).mono fun _ _ _ => trivial
    change (t.threads _).alive = false
    rw [hst.session]
    exact hg hz
  · exact holds_restoreExact backend (hst.session ▸ ho)

theorem holds_idle {f : MutationState → MutationState} {Q : Unit → MutationState → Prop}
    (he : s.session.state = .empty) (hs : (f s).session.state = .empty) (h : Q () (f s)) :
    (mutationRules mask commits).Holds () (Prog.modify f : Mutation Unit) Q s :=
  sequential_modify fun _ => ⟨.of_empty hs, fun ho => absurd he ho, h⟩

/-- Nothing is open and the session names its target. -/
structure Preparing (identity : Identity) (s : MutationState) : Prop where
  empty : s.session.state = .empty
  identity : s.session.identity = identity

theorem Preparing.unmoved (hp : Preparing identity s) (hs : Unmoved s t) : Preparing identity t :=
  ⟨hs.session ▸ hp.empty, hs.session ▸ hp.identity⟩

theorem holds_beginFails (code : ℤ) (he : s.session.state = .empty) :
    (mutationRules mask commits).Holds () (beginFails backend code) (fun _ _ => True) s := by
  rw [beginFails, holds_bind]
  exact (holds_clearTransaction fun ho => absurd he ho).mono fun _ _ _ => trivial

/-- The snapshot of the core registers is the target's own. -/
def CoreTaken (identity : Identity) (s : MutationState) : Prop :=
  s.session.originalCore = (s.threads identity.targetGuid).core ∧
    s.session.desiredCore = (s.threads identity.targetGuid).core

def VfpTaken (identity : Identity) (s : MutationState) : Prop :=
  s.session.originalVfp.d = (s.threads identity.targetGuid).d ∧
    s.session.originalVfp.fpscrEntry = (s.threads identity.targetGuid).fpscrEntry ∧
    s.session.desiredVfp = s.session.originalVfp

theorem holds_beginCore (hp : Preparing identity s) :
    (mutationRules mask commits).Holds () (beginCore identity.targetGuid) (fun r t =>
      Preparing identity t ∧ (0 ≤ r → CoreTaken identity t)) s := by
  rw [beginCore, holds_bind]
  refine (holds_callSnapshotCore _).mono ?_
  rintro ⟨result, rs⟩ t ⟨hs, hh⟩
  have hp := hp.unmoved hs
  rw [holds_ite, holds_bind]
  refine ⟨fun hf => ⟨hp, fun ha => absurd hf (not_lt.mpr ha)⟩, fun _ => ?_⟩
  exact holds_idle hp.empty hp.empty ⟨⟨hp.empty, hp.identity⟩, fun _ => ⟨hh, hh⟩⟩

theorem holds_beginVfp (hp : Preparing identity s) :
    (mutationRules mask commits).Holds () (beginVfp identity.targetGuid) (fun r t =>
      Preparing identity t ∧ (0 ≤ r → VfpTaken identity t)) s := by
  rw [beginVfp, holds_bind]
  refine (holds_callSnapshotVfp _).mono ?_
  rintro ⟨result, rs⟩ t ⟨hs, hhd, hhf⟩
  have hp := hp.unmoved hs
  simp only [holds_ite, holds_bind]
  refine ⟨fun hf => ⟨hp, fun ha => absurd hf (not_lt.mpr ha)⟩, fun _ => ⟨fun _ => ?_, fun _ => ?_⟩⟩
  · exact holds_idle hp.empty hp.empty ⟨⟨hp.empty, hp.identity⟩, fun ha => absurd ha (by decide)⟩
  · exact holds_idle hp.empty hp.empty ⟨⟨hp.empty, hp.identity⟩, fun _ => ⟨hhd, hhf, rfl⟩⟩

/-- Publishing makes the honest snapshot the base. -/
theorem holds_publish {bankMask : UInt32} (hp : Preparing identity s)
    (ht : (bankMask = coreBank ∧ CoreTaken identity s) ∨
      (bankMask = vfpBank ∧ VfpTaken identity s)) :
    (mutationRules mask commits).Holds () (publish identity bankMask) (fun _ _ => True) s := by
  rw [publish, holds_bind]
  refine sequential_modify fun _ => ⟨?_, fun ho => absurd hp.empty ho, ?_⟩
  · have hh : s.threads s.session.identity.targetGuid = s.threads identity.targetGuid := by
      rw [hp.identity]
    refine ⟨fun _ => ?_, fun _ _ => ?_, fun _ => rfl, fun _ => .inr ⟨rfl, rfl⟩⟩
    · rcases ht with ⟨rfl, hor, hd⟩ | ⟨rfl, hod, hof, hd⟩
      · refine .inl ⟨rfl, hor, fun bank register => ?_, fun bank register => .inl ?_,
          congrArg _ hh, congrArg _ hh⟩
        · exact .inl (congrFun (congrFun hd bank) register)
        · exact congrArg (·.core bank register) hh
      · refine .inr ⟨rfl, hod, hof, ?_, congrArg _ hh, congrArg (·.fpscrEntry 1) hh⟩
        dsimp only [takeHandleSequence]
        rw [hd, hof]
    · exact ⟨congrArg _ hh, congrArg _ hh, congrArg _ hh⟩
  · exact sequential_read fun _ => trivial

theorem holds_beginRetained {bankMask : UInt32} (backend : Option Backend)
    (hb : bankMask = coreBank ∨ bankMask = vfpBank) (hp : Preparing identity s) :
    (mutationRules mask commits).Holds () (beginRetained identity bankMask backend)
      (fun _ _ => True) s := by
  rw [beginRetained, holds_bind]
  refine holds_callBackend.mono fun retained t hf => ?_
  have hp := hp.unmoved hf
  rw [holds_ite]
  refine ⟨fun _ => holds_beginFails retained hp.empty, fun _ => ?_⟩
  rw [holds_bind]
  refine (holds_callStatus _).mono ?_
  rintro status u ⟨hs, -⟩
  have hp := hp.unmoved hs
  rw [holds_ite]
  refine ⟨fun _ => holds_beginFails _ hp.empty, fun _ => ?_⟩
  rcases hb with rfl | rfl
  · simp only [forBank_self (show coreBank &&& coreBank ≠ 0 by decide),
      forBank_none (show coreBank &&& vfpBank = 0 by decide), holds_bind, holds_ite]
    refine (holds_beginCore hp).mono ?_
    rintro core v ⟨hp, ht⟩
    refine ⟨fun _ => holds_beginFails core hp.empty, fun ha => ?_⟩
    exact ⟨fun hi => absurd hi (lt_irrefl 0),
      fun _ => holds_publish hp (.inl ⟨rfl, ht (not_lt.mp ha)⟩)⟩
  simp only [forBank_self (show vfpBank &&& vfpBank ≠ 0 by decide),
    forBank_none (show vfpBank &&& coreBank = 0 by decide), holds_bind, holds_ite]
  refine ⟨fun hi => absurd hi (lt_irrefl 0), fun _ => ?_⟩
  refine (holds_beginVfp hp).mono ?_
  rintro vfp v ⟨hp, ht⟩
  refine ⟨fun _ => holds_beginFails vfp hp.empty, fun ha => ?_⟩
  exact holds_publish hp (.inr ⟨rfl, ht (not_lt.mp ha)⟩)

theorem begin_always (identity : Option Identity) (r : Option BeginRequest)
    (backend : Option Backend) (storage : Bool) : (mutationRules mask commits).Always ()
      (vdThreadMutationBegin identity r backend storage) := by
  intro s
  rw [vdThreadMutationBegin, holds_bind]
  refine sequential_read fun _ => ?_
  split
  · next identity r =>
    simp only [holds_ite, holds_bind]
    refine ⟨fun _ => trivial, fun hv =>
      ⟨fun _ => trivial, fun hbu => ⟨fun _ => trivial, fun _ => ?_⟩⟩⟩
    have he := not_not.mp hbu
    have hb : r.bankMask = coreBank ∨ r.bankMask = vfpBank :=
      or_iff_not_and_not.mpr fun hn => hv (by simp [hn.1, hn.2])
    exact holds_idle he he (holds_beginRetained backend hb ⟨he, rfl⟩)
  · trivial

section Gate

theorem onGate_always (f : GprGate → GprGate) :
    (mutationRules mask commits).Always () (onGate f) := by
  intro s
  have hs : Unmoved s { s with gate := f s.gate } :=
    ⟨rfl, rfl, rfl, fun _ => ⟨rfl, rfl, rfl⟩, fun _ => id⟩
  exact sequential_modify fun hk => ⟨hs.kept hk, ending_of_session rfl, trivial⟩

theorem read_always {α : Type} (f : MutationState → α) :
    (mutationRules mask commits).Always () (Prog.read f : Mutation α) :=
  fun _ => sequential_read fun _ => trivial

theorem callBackend_always : (mutationRules mask commits).Always () callBackend :=
  fun _ => holds_callBackend.mono fun _ _ _ => trivial

theorem finishOperation_always (result : ℤ) :
    (mutationRules mask commits).Always () (finishOperation result) := by
  refine (read_always _).bind fun s => .ite (.pure _) ?_
  refine Always.bind (.ite callBackend_always (.pure _)) fun _ => ?_
  exact (onGate_always _).bind fun _ => .pure _

theorem gateBegun_always (identity : Identity) (registerIndex : UInt32) (handle : Handle)
    (backend : Option Backend) : (mutationRules mask commits).Always ()
      (gateBegun identity registerIndex handle backend) := by
  refine (onGate_always _).bind fun _ => (read_always _).bind fun session => ?_
  split
  · exact (onGate_always _).bind fun _ => .pure _
  · exact (restore_always _ _ backend).bind fun result =>
      (finishOperation_always result).bind fun _ => .pure _

theorem gateBegin_always (compiled : Bool) (identity : Option Identity) (registerIndex : UInt32)
    (provider : Bool) (backend : Backend) : (mutationRules mask commits).Always ()
      (vdThreadGprGateBegin compiled identity registerIndex provider backend) := by
  refine .ite (.pure _) ((read_always _).bind fun s => ?_)
  split
  · exact .pure _
  refine .ite (.pure _) (.ite (.pure _) ?_)
  refine callBackend_always.bind fun _ => .ite (.pure _) ?_
  refine Always.bind (fun _ => sequential_ask fun _ => trivial) fun _ => ?_
  refine .ite (.pure _) (.ite (.pure _) ?_)
  refine (begin_always _ _ _ true).bind fun _ => ?_
  exact .ite (.pure _) (gateBegun_always _ _ _ _)

end Gate

/-- A commit needs the permission; every other call is within the rules. -/
theorem program_always (call : MutationCall) (hu : UsesMask mask call.backend)
    (hg : ¬commits → call.ThroughGate) (he : call.Enabled s) :
    (mutationRules mask commits).Holds () call.program (fun _ _ => True) s := by
  cases call with
  | begin identity r backend storage =>
    exact (begin_always _ _ _ _).bind (fun _ => .pure _) s
  | stage identity r backend =>
    exact (stage_always _ _ hu).bind (fun _ => .pure _) s
  | commit identity handle backend =>
    have hp : commits := not_not.mp hg
    exact (commit_always hp _ _ _).bind (fun _ => .pure _) s
  | restore identity handle backend =>
    exact (restore_always _ _ _).bind (fun _ => .pure _) s
  | cleanup ownerPid stopToken backend =>
    exact (cleanup_always _ _ _).bind (fun _ => .pure _) s
  | gateBegin compiled identity registerIndex provider backend =>
    exact (gateBegin_always _ _ _ _ _).bind (fun _ => .pure _) s
  | gateApply compiled identity value backend =>
    refine Always.bind (.ite (.pure _) ?_) (fun _ => .pure _) s
    refine (read_always _).bind fun _ => ?_
    refine .ite (.pure _) (.ite (.pure _) ?_)
    exact (stage_always _ _ hu).bind fun re => finishOperation_always re
  | gateRestore compiled identity backend =>
    refine Always.bind (.ite (.pure _) ?_) (fun _ => .pure _) s
    refine (read_always _).bind fun _ => .ite (.pure _) ?_
    exact (restore_always _ _ _).bind fun re => finishOperation_always re
  | gateCleanup compiled ownerPid stopToken backend =>
    refine Always.bind (.ite (.pure _) ?_) (fun _ => .pure _) s
    refine (read_always _).bind fun _ => .ite ?_ ?_
    · exact (onGate_always _).bind fun _ => .pure _
    · exact .ite (.pure _) ((cleanup_always _ _ _).bind fun re => finishOperation_always re)
  | outside threads => exact holds_idle he he trivial

end Programs

/-- The calls a run may start: those admitted, with a backend of the mask. -/
def Starts (allowed : MutationCall → Prop) (mask : UInt32) (_ : Unit) (s : MutationState)
    (p : Mutation Unit) : Prop :=
  ∃ call, allowed call ∧ UsesMask mask call.backend ∧ call.Enabled s ∧ p = call.program

abbrev MutationRun (allowed : MutationCall → Prop) (mask : UInt32) (threads : ℤ → ThreadFile) :
    Config Unit MutationState MutationReply → Prop :=
  Run (Starts allowed mask) (booted threads)

section Runs
variable {allowed : MutationCall → Prop} {mask : UInt32} {threads : ℤ → ThreadFile}
  {c c' : Config Unit MutationState MutationReply}

theorem starts_holds {commits : Prop} (hg : ¬commits → ∀ call, allowed call → call.ThroughGate)
    (i : Unit) (s : MutationState) (p : Mutation Unit) (hs : Starts allowed mask i s p) :
    (mutationRules mask commits).Holds i p (fun _ _ => True) s := by
  obtain ⟨call, ha, hu, he, rfl⟩ := hs
  exact program_always call hu (fun hr => hg hr call ha) he

theorem mutationRun_kept (run : MutationRun allowed mask threads c) : Kept mask c.shared := by
  have hsa : Safe (mutationRules mask True) c :=
    run.safe (fun i s p hs _ _ => starts_holds (fun hr => absurd trivial hr) i s p
      hs) (fun _ => trivial) (Kept.of_empty rfl) fun _ => trivial
  exact hsa.inv

/-- The step that clears an open transaction has a cause that accounts for it. -/
theorem mutationRun_ending (commits : Prop)
    (hg : ¬commits → ∀ call, allowed call → call.ThroughGate)
    (run : MutationRun allowed mask threads c) (hn : Step (Starts allowed mask) c c') :
    Ending commits c.shared c'.shared := by
  have hm : c'.shared = c.shared ∨
      ∃ i, (mutationRules mask commits).guarantee i c.shared c'.shared :=
    run.guarantee (fun i s p hst _ _ => starts_holds hg i s p hst)
      (fun _ => trivial) (Kept.of_empty rfl) (fun _ => trivial) hn
  rcases hm with hs | ⟨i, hs | he⟩
  · exact ending_of_session (hs ▸ rfl)
  · exact ending_of_session (hs ▸ rfl)
  · exact he

/-- What the target may look like while a transaction is open, how an open
transaction that wrote is cleared, and what a run through the gate leaves. -/
theorem threadMutation_accounts_for_writes (run : MutationRun allowed mask threads c) :
    (c.shared.session.state ≠ .empty → CoreFrame mask c.shared.base.core (target c.shared).core ∧
      (c.shared.session.bankMask = coreBank → (target c.shared).d = c.shared.base.d ∧
        (target c.shared).fpscrEntry = c.shared.base.fpscrEntry) ∧
      (c.shared.session.bankMask = vfpBank → (target c.shared).core = c.shared.base.core ∧
        (target c.shared).fpscrEntry 1 = c.shared.base.fpscrEntry 1)) ∧
    (∀ c', Step (Starts allowed mask) c c' → c.shared.session.state ≠ .empty →
      c'.shared.session.state = .empty → c'.shared.threads = c.shared.threads ∧
      (c.shared.written → (c'.shared.ended = some .committed ∧ HoldsDesired c.shared) ∨
        (c'.shared.ended = some .restored ∧ SameRegisters (target c.shared) c.shared.base) ∨
        (c'.shared.ended = some .gone ∧ (target c.shared).alive = false)) ∧
      ((∀ call, allowed call → call.ThroughGate) → (target c.shared).alive →
        SameRegisters (target c.shared) c.shared.base)) := by
  have hk := mutationRun_kept run
  refine ⟨fun ho => ?_, fun c' hn ho empty => ?_⟩
  · rcases hk.opened ho with core | vfp
    · refine ⟨core.core, fun _ => ⟨core.d, core.fpscrEntry⟩, fun hiv => ?_⟩
      exact absurd (core.bank.symm.trans hiv) (by decide)
    · refine ⟨fun bank register => .inl ?_, fun hic => ?_, fun _ => ⟨vfp.core, vfp.fpscrEntry⟩⟩
      · rw [vfp.core]
      · exact absurd (vfp.bank.symm.trans hic) (by decide)
  have hp := mutationRun_ending True (fun hr => absurd trivial hr) run hn ho empty
  refine ⟨hp.1, fun hw => ?_, fun hg hl => ?_⟩
  · obtain ⟨-, cause, ended, hj⟩ := hp
    cases cause with
    | beginFailed => exact hj.elim
    | unwritten => exact absurd (hj.symm.trans hw) (by decide)
    | committed => exact .inl ⟨ended, hj.2⟩
    | restored => exact .inr (.inl ⟨ended, hj⟩)
    | gone => exact .inr (.inr ⟨ended, hj⟩)
  obtain ⟨-, cause, -, hj⟩ := mutationRun_ending False (fun _ => hg) run hn ho empty
  cases cause with
  | beginFailed => exact hj.elim
  | unwritten => exact hk.clean ho hj
  | committed => exact hj.1.elim
  | restored => exact hj
  | gone => exact absurd (hl.symm.trans hj) (by decide)

end Runs

/-- Every thread is alive in user mode at `0x1000`. -/
def userThread : ThreadFile where
  core _ register := match register with
    | .cpsr => 0x10
    | .pc => 0x1000
    | .sp => 0x2000
    | _ => 0
  d _ := 0
  fpscrEntry _ := 0
  alive := true

/-- Only R0 is writable. -/
def onlyR0 : Backend := ⟨1, 1, true, true, true, true, true, true, true⟩

def caller : Identity := ⟨1, 2, 9, 3, 4⟩

def beginR0 : MutationCall := .begin (some caller) (some ⟨24, 1, 9, 3, 1, 0⟩) (some onlyR0) true

def stageR0 : MutationCall :=
  .stage (some caller) (some ⟨⟨32, 1, 1, 1, 9, 3, 1, 0⟩, 1, 0, 0, 7, 0, 0⟩) (some onlyR0)

/-- Every callback succeeds and every write is complete. -/
def served : MutationReply :=
  ⟨1, fun _ _ => true, fun _ => true, fun _ => true, 1, 32, fun _ => false, 0⟩

theorem threadMutation_accounts_for_writes_staged :
    ∃ c, MutationRun (fun _ => True) 1 (fun _ => userThread) c ∧ c.shared.written = true ∧
      CoreFrame 1 c.shared.base.core (target c.shared).core := by
  have hou : ((beginR0.program.exec (List.replicate 12 served)
      (booted fun _ => userThread)).bind fun r =>
        stageR0.program.exec (List.replicate 12 served) r.2.1).map
      (fun r => (r.2.1.written, decide (r.2.1.session.state = .empty))) = some (true, false) := by
    decide +kernel
  obtain ⟨⟨_, t, _⟩, he, hf⟩ := Option.map_eq_some_iff.mp hou
  obtain ⟨⟨_, u, _⟩, hb, hst⟩ := Option.bind_eq_some_iff.mp he
  obtain ⟨hw, ho⟩ := Prod.mk.inj hf
  have hu : UsesMask 1 (some onlyR0) := fun b hm => Option.some.inj hm ▸ rfl
  have hfi : MutationRun (fun _ => True) 1 (fun _ => userThread) ⟨u, _⟩ :=
    (Run.init.step (.call () _ rfl ⟨beginR0, trivial, hu, trivial, rfl⟩)).finish
      (Prog.ends_of_exec hb)
  have hs : MutationRun (fun _ => True) 1 (fun _ => userThread) ⟨t, _⟩ :=
    (hfi.step (.call () _ (by simp)
      ⟨stageR0, trivial, hu, trivial, rfl⟩)).finish (Prog.ends_of_exec hst)
  exact ⟨_, hs, hw, ((threadMutation_accounts_for_writes hs).1 (of_decide_eq_false ho)).1⟩

end VitaDebugger.MutationRestore
