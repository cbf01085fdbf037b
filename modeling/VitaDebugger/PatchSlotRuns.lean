import VitaDebugger.BreakpointPatch
import VitaDebugger.RelyGuarantee
import VitaDebugger.RestoreRuns

/-! Whole runs of one breakpoint slot. The installation touches memory only under
complete recovery metadata, and a slot left pending keeps what memory held until a
later restoration succeeds, whatever other writers do in between. -/

namespace VitaDebugger.PatchSlotRuns
open AtomicProgram Prog RelyGuarantee Rules SpanMemory BreakpointPatch

/-- The slot alone can restore the span to the given bytes. -/
structure Recorded (address size : ℕ) (original : Bytes) (slot : PatchSlot) : Prop where
  occupied : slot.state ≠ .empty
  address : slot.address = address
  size : slot.size = size
  original : slot.original = original

/-- Every action leaves memory alone or starts from a recorded slot. -/
def metadataFirst (recorded : PatchSlot → Prop) : Rules Unit SlotTarget :=
  Rules.sequential (fun _ => True) (fun s t => t.mem = s.mem ∨ recorded s.slot) (fun _ => True)

variable {address : ℕ} {α : Type}

section Actions
variable {recorded : PatchSlot → Prop} {t : SlotTarget}

theorem write_recorded {i : Bytes} {Q : ℕ → SlotTarget → Prop} (hk : recorded t.slot)
    (any : ∀ c mem, Q c { t with mem }) :
    (metadataFirst recorded).Holds () ((ioWrite address i).lift slotMemory) Q t :=
  sequential_lift slotMemory (sequential_perform fun _ _ => ⟨trivial, .inr hk, any _ _⟩)

theorem sync_recorded {size : ℕ} {Q : ℤ → SlotTarget → Prop} (any : ∀ status, Q status t) :
    (metadataFirst recorded).Holds () ((ioSync address size).lift slotMemory) Q t :=
  sequential_lift slotMemory (sequential_still fun _ => ⟨rfl, any _⟩)

theorem read_recorded {size : ℕ} {Q : Option Bytes → SlotTarget → Prop} (hs : Q none t)
    (hf : Q (some (load t.mem address size)) t) :
    (metadataFirst recorded).Holds () ((ioRead address size).lift slotMemory) Q t := by
  refine sequential_lift slotMemory ?_
  refine sequential_still fun w => ⟨rfl, ?_⟩
  by_cases hw : w.count = size
  · simpa [hw, slotMemory] using hf
  · simpa [hw, slotMemory] using hs

theorem ask_recorded {f : IoReply → α} {Q : α → SlotTarget → Prop} (any : ∀ a, Q a t) :
    (metadataFirst recorded).Holds () (Prog.ask f) Q t :=
  sequential_ask fun w => any (f w)

theorem modify_recorded {f : SlotTarget → SlotTarget} {Q : Unit → SlotTarget → Prop}
    (hs : (f t).mem = t.mem) (hp : Q () (f t)) :
    (metadataFirst recorded).Holds () (Prog.modify f : Patch Unit) Q t :=
  sequential_modify fun _ => ⟨trivial, .inl hs, hp⟩

end Actions

section Metadata
variable {r : PatchSlot → Prop} {t : SlotTarget} {owner : Option PatchOwner}

theorem restoreInternal_recorded (hk : r { t.slot with state := .restorePending }) :
    (metadataFirst r).Holds () (breakpointPatchRestoreInternal owner)
      (fun _ _ => True) t := by
  have hw : (metadataFirst r).Holds () (do
      let w ← (ioWrite t.slot.address t.slot.original).lift slotMemory
      let s ← (ioSync t.slot.address t.slot.size).lift slotMemory
      let rd ← (ioRead t.slot.address t.slot.size).lift slotMemory
      if w ≠ t.slot.size ∨ s ≠ 0 ∨ rd ≠ some t.slot.original then
        pure PatchResult.restorePending
      else
        breakpointPatchClear
        pure .ok) (fun _ _ => True) (setState .restorePending t) := by
    simp only [holds_bind, holds_ite, holds_pure]
    refine write_recorded hk fun w mem => sync_recorded fun s => ?_
    refine read_recorded ⟨fun _ => trivial, fun _ => ?_⟩ ⟨fun _ => trivial, fun _ => ?_⟩
    all_goals exact modify_recorded rfl trivial
  simp only [breakpointPatchRestoreInternal, holds_bind]
  refine modify_recorded rfl (sequential_read fun _ => ?_)
  have hc : ∀ o : Bool, (metadataFirst r).Holds () (if o = false then
      pure PatchResult.identity else _) (fun _ _ => True) (setState .restorePending t) :=
    fun o => (holds_ite ..).mpr ⟨fun _ => trivial, fun _ => hw⟩
  cases owner with
  | none => exact hc _
  | some owner =>
    simp only [breakpointPatchIdentityMatches]
    split
    · exact ask_recorded hc
    · exact hc false

theorem installRollback_recorded (f : PatchResult)
    (hk : r { t.slot with state := .restorePending }) :
    (metadataFirst r).Holds () (installRollback owner f) (fun _ _ => True) t := by
  simp only [installRollback, holds_bind]
  exact (restoreInternal_recorded hk).mono fun _ _ _ => trivial

theorem installPublished_recorded {p : Bytes} (hk : r t.slot)
    (hp : t.slot.state = .restorePending) :
    (metadataFirst r).Holds () (installPublished owner address p)
      (fun _ _ => True) t := by
  have hr : ∀ f mem, (metadataFirst r).Holds () (installRollback owner f)
      (fun _ _ => True) { t with mem } := by
    intro f mem
    apply installRollback_recorded
    rw [← hp]
    exact hk
  simp only [installPublished, holds_bind, holds_ite]
  refine write_recorded hk fun written mem => ⟨fun _ => hr _ mem, fun _ => ?_⟩
  refine sync_recorded fun synced => ⟨fun _ => hr _ mem, fun _ => ?_⟩
  refine read_recorded (hr _ mem) ?_
  rw [holds_ite]
  refine ⟨fun _ => hr _ mem, fun _ => ?_⟩
  rw [holds_bind]
  exact modify_recorded rfl trivial

theorem ownerAccepts_recorded {Q : Bool → SlotTarget → Prop} (any : ∀ b, Q b t) :
    (metadataFirst r).Holds () (ownerAccepts owner) Q t := by
  cases owner with
  | none => exact any true
  | some _ => exact ask_recorded any

/-- The installation records what memory held before any byte of it can change. -/
theorem installOwned_recorded (address : ℕ) (p : Bytes) :
    (metadataFirst (Recorded address p.length (load t.mem address p.length))).Holds ()
      (breakpointPatchInstallOwned owner address p) (fun _ _ => True) t := by
  simp only [breakpointPatchInstallOwned, holds_bind, holds_ite, holds_pure]
  refine sequential_read fun _ => ⟨fun _ => trivial, fun _ => ⟨fun _ => trivial, fun _ => ?_⟩⟩
  refine ownerAccepts_recorded fun _ => ⟨fun _ => trivial, fun _ => read_recorded trivial ?_⟩
  simp only [holds_bind, holds_ite, holds_pure]
  refine ownerAccepts_recorded fun _ => ⟨fun _ => trivial, fun _ => modify_recorded rfl ?_⟩
  exact installPublished_recorded ⟨by simp [publishedSlot], rfl, load_length _ _ _, rfl⟩ rfl

end Metadata

section Pending
variable {t : SlotTarget} {owner : Option PatchOwner}

theorem installRollback_pending {f : PatchResult} (hot : f ≠ .restorePending) :
    (installRollback owner f).wp (fun r u =>
      r = .restorePending → u.slot.state = .restorePending) t := by
  simp only [installRollback, wp_bind, wp_pure]
  apply (restoreInternal_spec owner t).mono
  intro r u ho
  cases ho with
  | verified mem off hs => simp [hot]
  | retained r hf mem off => simp

/-- An uncertain result leaves the slot pending. -/
theorem installOwned_pending (address : ℕ) (p : Bytes) :
    (breakpointPatchInstallOwned owner address p).wp (fun r u =>
      r = .restorePending → u.slot.state = .restorePending) t := by
  have hr : ∀ f mem, f ≠ .restorePending → (installRollback owner f).wp
      (fun r u => r = .restorePending → u.slot.state = .restorePending)
      ⟨publishedSlot owner address (load t.mem address p.length) p, mem⟩ :=
    fun _ _ ho => installRollback_pending ho
  simp only [breakpointPatchInstallOwned, wp_bind, wp_read, wp_ite, wp_pure]
  refine ⟨by simp, fun _ => ⟨by simp, fun _ => wp_ownerAccepts fun _ => ⟨by simp, fun _ => ?_⟩⟩⟩
  apply wp_slotRead
  · simp
  simp only [wp_bind, wp_ite, wp_pure, wp_modify, installPublished]
  refine wp_ownerAccepts fun _ => ⟨by simp, fun _ => wp_slotWrite fun written mem _ => ?_⟩
  refine ⟨fun _ => hr _ mem (by simp), fun _ => wp_slotSync fun synced => ?_⟩
  refine ⟨fun _ => hr _ mem (by simp), fun _ => ?_⟩
  apply wp_slotRead
  · exact hr _ mem (by simp)
  rw [wp_ite]
  exact ⟨fun _ => hr _ mem (by simp), by simp⟩

end Pending

section Identity

/-- A program that never touches memory, on any of its runs. -/
def Still {α : Type} (p : Patch α) : Prop :=
  ∀ s states a t, p.Path s states a t → t.mem = s.mem ∧ ∀ m ∈ states, m.mem = s.mem

theorem still_perform {f : SlotTarget → IoReply → α × SlotTarget}
    (hs : ∀ s w, (f s w).2.mem = s.mem) : Still (Prog.perform f) := by
  intro s states a t hp
  obtain ⟨w, rfl, -, rfl⟩ := Prog.path_perform.mp hp
  simp [hs]

theorem still_pure (a : α) : Still (pure a) := by
  intro s states b t hp
  obtain ⟨rfl, -, rfl⟩ := Prog.path_pure.mp hp
  simp

theorem still_identityMatches (slot : PatchSlot) (owner : Option PatchOwner) :
    Still (breakpointPatchIdentityMatches slot owner) := by
  cases owner with
  | none => exact still_pure _
  | some owner =>
    simp only [breakpointPatchIdentityMatches]
    split
    · exact still_perform fun _ _ => rfl
    · exact still_pure _

theorem Still.bind_path {β : Type} {p : Patch α} {f : α → Patch β} (hs : Still p)
    {s t : SlotTarget} {ss : List SlotTarget} {b : β} (hp : (p >>= f).Path s ss b t)
    (hr : ∀ a m l, (f a).Path m l b t → ∀ x ∈ l, x.mem = m.mem) :
    ∀ x ∈ ss, x.mem = s.mem := by
  obtain ⟨first, l, a, m, rfl, hb, ha⟩ := Prog.path_bind.mp hp
  obtain ⟨hsa, all⟩ := hs _ _ _ _ hb
  intro x hm
  rcases List.mem_append.mp hm with he | hl
  · exact all x he
  · exact (hr a m l ha x hl).trans hsa

theorem restoreOwned_identity {owner : Option PatchOwner} {s t : SlotTarget}
    {ss : List SlotTarget}
    (hp : (breakpointPatchRestoreOwned owner).Path s ss .identity t) :
    ∀ m ∈ ss, m.mem = s.mem := by
  refine (still_perform fun _ _ => rfl).bind_path hp fun slot s₁ states₁ hp => ?_
  split at hp
  · exact (still_pure _ _ _ _ _ hp).2
  split at hp
  · exact (still_pure _ _ _ _ _ hp).2
  refine (still_perform fun _ _ => rfl).bind_path hp fun _ s₂ states₂ hp => ?_
  refine (still_perform fun _ _ => rfl).bind_path hp fun slot s₃ states₃ hp => ?_
  refine (still_identityMatches _ _).bind_path hp fun owned s₄ states₄ hp => ?_
  split at hp
  · exact (still_pure _ _ _ _ _ hp).2
  -- past the check the only results are a verified and an uncertain restoration
  have ho := hp.ends.post (Q := fun re _ => re ≠ .identity) (by
    simp only [wp_bind, wp_ite, wp_pure]
    refine wp_slotWrite fun _ _ _ => wp_slotSync fun _ => wp_slotRead ?_ ?_
    all_goals exact ⟨by simp, fun _ => by simp [breakpointPatchClear]⟩)
  exact absurd rfl ho

end Identity

section Retries

/-- Later restorations of one slot by any owners; in between, `others` may move
memory. -/
def Retried (others : Memory → Memory → Prop) : SlotTarget → List PatchResult → SlotTarget → Prop :=
  RestoreRuns.Retried SlotTarget.slot SlotTarget.mem
    (fun p => ∃ owner, p = breakpointPatchRestoreOwned owner) others

/-- Other writers stay inside the slot's own span. -/
def Inside (others : Memory → Memory → Prop) (slot : PatchSlot) : Prop :=
  RestoreRuns.Inside others slot.address slot.size

theorem restoreOwned_restores {slot : PatchSlot} (valid : breakpointPatchSlotMetadataIsValid slot)
    (pending : slot.state = .restorePending) (p : Patch PatchResult)
    (called : ∃ owner, p = breakpointPatchRestoreOwned owner) (t : SlotTarget)
    (same : t.slot = slot) :
    RestoreRuns.Restores SlotTarget.slot SlotTarget.mem slot.address slot.size .ok
      (fun u => u.slot.state = .empty ∧ load u.mem slot.address slot.size = slot.original) p t := by
  obtain ⟨owner, rfl⟩ := called
  subst same
  apply (restoreOwned_spec owner t valid).mono
  intro result u outcome
  cases outcome with
  | verified mem off bytes => exact ⟨off, fun failed => absurd rfl failed, fun _ => ⟨rfl, bytes⟩⟩
  | retained result failed mem off =>
    refine ⟨off, fun _ => ?_, fun ok => absurd ok failed⟩
    simp only [← pending]

end Retries

/-- One slot from installation to its last restoration, at every pattern of failed
callbacks. -/
theorem patch_slot_recoverable (owner : Option PatchOwner) (address : ℕ) (patch : Bytes)
    (t : SlotTarget) (free : t.slot.state = .empty) :
    (∀ states result u, (breakpointPatchInstallOwned owner address patch).Path t states result u →
      (t :: states).IsChain (fun s s' => s'.mem = s.mem ∨
        Recorded address patch.length (load t.mem address patch.length) s.slot) ∧
      (result = .ok → load u.mem address patch.length = patch) ∧
      (result ≠ .ok → result ≠ .restorePending → u.slot.state = .empty ∧ u.mem = t.mem) ∧
      (result = .restorePending → ∀ others results v, Retried others u results v → (.ok ∉ results →
          Recorded address patch.length (load t.mem address patch.length) v.slot) ∧
        (∀ earlier, results = earlier ++ [.ok] → .ok ∉ earlier → v.slot.state = .empty ∧
          load v.mem address patch.length = load t.mem address patch.length ∧
          (Inside others u.slot → v.mem = t.mem)))) ∧
    ∀ owner s states u, (breakpointPatchRestoreOwned owner).Path s states .identity u →
      ∀ m ∈ states, m.mem = s.mem := by
  refine ⟨fun states result u path => ?_, fun _ _ _ _ path => restoreOwned_identity path⟩
  have outcome := path.ends.post (installOwned_spec owner address patch t)
  have uncertain := path.ends.post (installOwned_pending address patch)
  obtain ⟨-, chain, -⟩ := sequential_path (installOwned_recorded address patch) trivial path
  refine ⟨chain.imp ?_, ?_⟩
  · rintro m m' (rfl | change)
    · exact .inl rfl
    · exact change
  cases outcome with
  | refused result failed =>
    refine ⟨fun ok => absurd ok failed, fun _ _ => ⟨free, rfl⟩, fun pending => ?_⟩
    simp [free] at uncertain
    contradiction
  | rolledBack result failed =>
    refine ⟨fun ok => absurd ok failed, fun _ _ => ⟨rfl, rfl⟩, fun pending => ?_⟩
    simp [PatchSlot.cleared] at uncertain
    contradiction
  | installed free valid mem off trapped => simpa using trapped
  | pending free valid mem off =>
    refine ⟨by simp, by simp, fun _ others results v run => ?_⟩
    have size := load_length t.mem address patch.length
    have sound : breakpointPatchSlotMetadataIsValid
        (publishedSlot owner address (load t.mem address patch.length) patch) := by
      refine ⟨.inl rfl, ?_⟩
      rw [PatchSlot.size, publishedSlot, size]
      exact valid
    constructor
    · intro none
      rw [(RestoreRuns.Retried.kept run (restoreOwned_restores sound rfl) none).1]
      exact ⟨by simp [publishedSlot], rfl, size, rfl⟩
    rintro earlier rfl none
    obtain ⟨⟨empty, bytes⟩, within⟩ :=
      RestoreRuns.Retried.restored run (restoreOwned_restores sound rfl) none
    simp only [PatchSlot.size, publishedSlot, size] at bytes
    refine ⟨empty, bytes, fun inside => ?_⟩
    have later := within inside
    simp only [PatchSlot.size, publishedSlot, size] at later
    exact (off.trans later).eq_of_load bytes

/-- A Thumb trap at `0x1000` over zeroed memory. -/
theorem patch_slot_recoverable_thumb : PatchSlot.cleared.state = .empty ∧
    ∀ states result u, (breakpointPatchInstallOwned none 0x1000 [0x00, 0xde]).Path
      ⟨.cleared, fun _ => 0⟩ states result u → result = .ok → load u.mem 0x1000 2 = [0x00, 0xde] :=
  ⟨rfl, fun states result u hp =>
    ((patch_slot_recoverable none 0x1000 [0x00, 0xde] ⟨.cleared, fun _ => 0⟩ rfl).1
      states result u hp).2.1⟩

end VitaDebugger.PatchSlotRuns
