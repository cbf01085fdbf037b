import VitaDebugger.DebugSession

/-! What holds when the debugger releases the target. A detach and a failed client
release nothing uncertain. The resume packets retry only the breakpoint table and
the File-I/O reply retries nothing, so they are safe only while the obligations
they skip are absent. -/

namespace VitaDebugger.ResumeBarrier
open List
open AtomicProgram Prog BreakpointPatch BreakpointTable BreakpointGuards MemoryTransaction
  MemoryWrite
open ThreadControl DebugSession

/-- Nothing is left to restore before the target may run. -/
structure Quiet (live : LiveState) : Prop where
  slots : ∀ i, (live.target.breakpoints i).patch.state ≠ .restorePending
  write : ¬memoryWriteHasPending live.write

instance (live : LiveState) : Decidable (Quiet live) :=
  decidable_of_iff ((∀ i, (live.target.breakpoints i).patch.state ≠ .restorePending) ∧
    ¬memoryWriteHasPending live.write) ⟨fun h => ⟨h.1, h.2⟩, fun h => ⟨h.slots, h.write⟩⟩

variable {s : BreakpointState} {select : Breakpoint → Bool}

section Table

theorem insertInternal_sound (a size : ℕ) (t : Bool) :
    Preserves TableSound (breakpointInsertInternal a size t) := fun _ hs =>
  (insertInternal_spec hs.guards a size t).mono fun _ _ h =>
    h.1.toTableSound

theorem remove_sound (a : ℕ) : Preserves TableSound (breakpointRemove a) :=
  fun _ hs => (breakpointRemove_spec hs.guards a).mono fun _ _ h =>
    h.1.toTableSound

theorem removeRearmEach_sound (list : List Rearm) :
    Preserves TableSound (removeRearmEach list) := by
  induction list with
  | nil => exact .pure 0
  | cons rearm rest ih =>
    refine .bind (.read _) fun breakpoints => ?_
    split
    · exact ih
    · exact .bind (remove_sound _) fun _ => .bind ih fun _ => .pure _

theorem rearmEach_sound (list : List Rearm) : Preserves TableSound (rearmEach list) := by
  induction list with
  | nil => exact .pure 0
  | cons rearm rest ih =>
    intro s hs
    simp only [rearmEach, wp_bind, wp_read]
    split
    · next i hf =>
      rw [wp_ite]
      refine ⟨fun _ => hs, fun _ => ?_⟩
      simp only [wp_bind, wp_modify]
      exact ih _ (hs.guards.setTemporary (breakpointFind_some hf).1 _).toTableSound
    · apply (Preserves.bind (insertInternal_sound _ _ _) fun _ => ?_) s hs
      exact .ite (.pure _) ih

theorem removeEach_sound (ha : ∀ b, select b → Occupied b) :
    Preserves TableSound (removeEach select (List.finRange maxBreakpoints)) :=
  fun _ hs => (removeEach_guards hs.guards ha).mono fun _ _ h => h.toTableSound

/-- A sweep of at least the pending entries that reports success leaves none. -/
theorem removeEach_pending (ha : ∀ b, select b → Occupied b)
    (hp : ∀ b, b.patch.state = .restorePending → select b) (hso : TableSound s) :
    (removeEach select (List.finRange maxBreakpoints)).wp (fun r t =>
      0 ≤ r → ∀ i, (t.breakpoints i).patch.state ≠ .restorePending) s := by
  apply (removeEach_spec ha (nodup_finRange _) hso.guards).mono
  rintro r t ⟨-, hs⟩ hsu i hu
  have hz : r = 0 := by
    rcases hs.code with hz | hn
    · exact hz
    · omega
  have hc : t.breakpoints i = clearedBreakpoint := by
    rcases hs.entry i with hsa | ⟨hm, hch, -⟩
    · exact hs.complete hz i (mem_finRange i) (hp _ (hsa ▸ hu))
    · exact hs.complete hz i hm hch
  rw [hc] at hu
  simp [clearedBreakpoint, PatchSlot.cleared] at hu

theorem inserted_pending {address size : ℕ} {t : Bool} {r : ℤ}
    {before a : Index → Breakpoint} (hin : Inserted address size t before r a)
    (hc : ∀ i, (before i).patch.state ≠ .restorePending) (hsu : 0 ≤ r) (j : Index) :
    (a j).patch.state ≠ .restorePending := by
  cases hin with
  | refused hf => omega
  | present => exact hc j
  | placed i b hfr hh hw hfl hs =>
    obtain ⟨-, hi⟩ | ⟨hn, -⟩ := hs
    · obtain rfl | different := eq_or_ne j i
      · rw [Function.update_self, hi]
        simp
      · rw [Function.update_of_ne different]
        exact hc j
    · omega

end Table

variable {α : Type}

section Live

/-- The invariant of every program on the mutation state. -/
def LiveSound (s : LiveState) : Prop := TableSound s.target

theorem tablePart_sound {p : Table α} (hk : Preserves TableSound p) :
    Preserves LiveSound (p.lift tablePart) :=
  .lift tablePart fun s hs => hk s.target hs

theorem transactionPart_sound (p : Prog TransactionTarget IoReply α) :
    Preserves LiveSound (p.lift transactionPart) :=
  .lift transactionPart fun _ hs => wp_of_forall _ fun _ _ =>
    ⟨hs.wellFormed, hs.disjoint⟩

theorem removeRearmBreakpoints_sound : Preserves LiveSound memoryWriteRemoveRearmBreakpoints :=
  .bind (.read _) fun r => tablePart_sound (removeRearmEach_sound r)

theorem rearmBreakpoints_sound : Preserves LiveSound memoryWriteRearmBreakpoints :=
  .bind (.read _) fun r => tablePart_sound (rearmEach_sound r)

theorem setRearm_sound (r : List Rearm) :
    Preserves LiveSound (Prog.modify (setRearm r) : Live Unit) :=
  .modify fun _ hs => hs

theorem restoreTransaction_sound : Preserves LiveSound restoreTransaction :=
  .bind (.read _) fun _ => .ite (.bind (transactionPart_sound _) fun _ => .pure _) (.pure _)

theorem restorePending_sound : Preserves LiveSound memoryWriteRestorePending := by
  refine .bind (.read _) fun _ => .ite (.pure _) ?_
  refine .bind removeRearmBreakpoints_sound fun _ => .ite (.pure _) ?_
  refine .bind restoreTransaction_sound fun _ => .ite (.pure _) ?_
  refine .bind rearmBreakpoints_sound fun _ => .ite (.pure _) ?_
  exact .bind (setRearm_sound []) fun _ => .pure _

theorem storageReserve_sound (c : ℕ) : Preserves LiveSound (memoryWriteStorageReserve c) := by
  refine .bind (.read _) fun _ =>
    .ite (.pure _) (.ite (.pure _) (.ite (.pure _) (.ite (.pure _) ?_)))
  refine .bind (.ask _) fun _ => .ite (.pure _) ?_
  refine .bind (.ask _) fun _ => .ite (.pure _) ?_
  refine .bind (.ask _) fun _ => .ite (.pure _) ?_
  exact .bind (.modify fun _ hs => hs) fun _ => .pure _

theorem captureBreakpoints_sound (a size : ℕ) :
    Preserves LiveSound (memoryWriteCaptureBreakpoints a size) := by
  refine .bind (.modify fun _ hs => hs) fun _ => ?_
  refine .bind removeRearmBreakpoints_sound fun _ => .ite ?_ (.pure _)
  exact .bind restorePending_sound fun _ => .pure _

theorem abandonWrite_sound : Preserves LiveSound abandonWrite :=
  .bind restorePending_sound fun _ => .pure _

theorem applyDecoded_sound (decoded : Bytes) : Preserves LiveSound (applyDecoded decoded) := by
  refine .bind (transactionPart_sound _) fun _ => .ite ?_ ?_
  · refine .bind (.read _) fun _ => .ite (.pure _) ?_
    refine .bind rearmBreakpoints_sound fun _ => .ite (.pure _) ?_
    exact .bind (setRearm_sound []) fun _ => .pure _
  · refine .bind rearmBreakpoints_sound fun _ => .ite abandonWrite_sound ?_
    refine .bind (transactionPart_sound _) fun _ => .ite abandonWrite_sound ?_
    exact .bind (setRearm_sound []) fun _ => .pure _

theorem memoryWriteLive_sound (a : ℕ) (data : Option Bytes) (size : ℕ) :
    Preserves LiveSound (memoryWriteLive a data size) := by
  refine .bind (.read _) fun _ => .ite (.pure _) ?_
  refine .bind (storageReserve_sound size) fun _ => .ite (.pure _) (.ite (.pure _) ?_)
  refine .bind (captureBreakpoints_sound a size) fun _ => .ite (.pure _) ?_
  refine .bind (transactionPart_sound _) fun _ => .ite ?_ ?_
  · refine .bind rearmBreakpoints_sound fun _ => .ite (.bind (setRearm_sound []) fun _ => ?_) ?_
    · exact .bind (.read _) fun _ => .pure _
    · exact .bind (.read _) fun _ => .pure _
  · split
    · exact abandonWrite_sound
    · exact applyDecoded_sound _

theorem memoryTransactionRestore_discharges (t : TransactionTarget) :
    memoryTransactionRestore.wp (fun r u => r = .writeFailedRestored →
      ¬memoryTransactionIsPending u.transaction) t := by
  simp only [memoryTransactionRestore, wp_bind, wp_read]
  split
  · simp
  rw [wp_ite]
  refine ⟨fun _ => by simp, fun _ => ?_⟩
  rw [wp_bind]
  apply wp_of_forall
  intro r u
  rw [wp_ite]
  refine ⟨fun hf hr => (hf hr).elim, fun _ => ?_⟩
  simp [clearTransaction, memoryTransactionIsPending, Transaction.clear]

theorem restoreTransaction_discharges (s : LiveState) :
    restoreTransaction.wp (fun ok t => ok = true →
      ¬memoryTransactionIsPending t.write.transaction) s := by
  simp only [restoreTransaction, wp_bind, wp_read, wp_ite, wp_pure]
  refine ⟨fun _ => ?_, fun hi _ => hi⟩
  apply wp_lift
  apply (memoryTransactionRestore_discharges _).mono
  exact fun r u hi ok => hi (of_decide_eq_true ok)

/-- A retry that reports success leaves no obligation behind. -/
theorem restorePending_discharges (s : LiveState) :
    memoryWriteRestorePending.wp (fun r t => 0 ≤ r → ¬memoryWriteHasPending t.write) s := by
  have hre : Preserves (fun t : LiveState => ¬memoryTransactionIsPending t.write.transaction)
      memoryWriteRearmBreakpoints :=
    .bind (.read _) fun _ => .lift tablePart fun _ hi => wp_of_forall _ fun _ _ => hi
  simp only [memoryWriteRestorePending, wp_bind, wp_read, wp_ite, wp_pure]
  refine ⟨fun ha _ => ha, fun _ => wp_of_forall _ fun removed t => ?_⟩
  refine ⟨fun _ => by simp, fun _ => (restoreTransaction_discharges t).mono ?_⟩
  intro ok u hd
  refine ⟨fun _ => by simp, fun hr => ?_⟩
  apply (hre u (hd (by simpa using hr))).mono
  intro rearmed v hi
  refine ⟨fun _ => by simp, fun _ => ?_⟩
  simpa [memoryWriteHasPending, setRearm] using hi

end Live

variable {d : Debugger}

section Session

/-- The table is sound and every release so far left nothing uncertain. -/
structure Sealed (d : Debugger) : Prop where
  table : LiveSound d.live
  released : ∀ live ∈ d.releases, Quiet live

/-- A program that touches neither the mutation state nor the record of releases. -/
def Frames {α : Type} (p : Debug α) : Prop :=
  ∀ live releases, Preserves (fun d => d.live = live ∧ d.releases = releases) p

theorem Frames.spec {p : Debug α} (hf : Frames p) (d : Debugger) :
    p.wp (fun _ t => t.live = d.live ∧ t.releases = d.releases) d :=
  hf d.live d.releases d ⟨rfl, rfl⟩

theorem Sealed.of_same {t : Debugger} (hs : Sealed d)
    (hsa : t.live = d.live ∧ t.releases = d.releases) : Sealed t where
  table := hsa.1 ▸ hs.table
  released := hsa.2 ▸ hs.released

theorem Frames.sealed {p : Debug α} (hf : Frames p) : Preserves Sealed p :=
  fun d hs => (hf.spec d).mono fun _ _ => hs.of_same

theorem Sealed.release (hs : Sealed d) (hq : Quiet d.live) : Sealed (noteRelease d) where
  table := hs.table
  released live hm := by
    rcases mem_append.mp hm with hb | now
    · exact hs.released live hb
    · rw [mem_singleton.mp now]
      exact hq

theorem onLive_sealed {p : Live α} (hk : Preserves LiveSound p) : Preserves Sealed (onLive p) :=
  .lift livePart fun d hs =>
    (hk d.live hs.table).mono fun _ _ hso => ⟨hso, hs.released⟩

theorem onTable_sealed {p : Table α} (hk : Preserves TableSound p) :
    Preserves Sealed (onTable p) := onLive_sealed (tablePart_sound hk)

theorem wp_onTable {p : Table α} {Q : α → Debugger → Prop}
    (h : p.wp (fun a t => Q a { d with live := { d.live with target := t } }) d.live.target) :
    (onTable p).wp Q d := wp_lift livePart (wp_lift tablePart h)

theorem claimStopController_frames : Frames claimStopController := by
  intro live releases
  refine .perform fun d w hs => ?_
  simp only [leaseRenewOnce]
  split <;> exact hs

theorem kernelRenewStop_frames (t : ℕ) : Frames (kernelRenewStop t) :=
  fun _ _ => .ite (.pure _) (.ask _)

theorem kernelRecoverStop_frames : Frames kernelRecoverStop := by
  intro live rs
  refine .bind (.read _) fun t => ?_
  refine .bind (kernelRenewStop_frames t live rs) fun _ => .ite ?_ ?_
  · exact .bind (.modify fun _ hs => hs) fun _ => .pure _
  · refine .bind (.ask _) fun _ => .ite ?_ ?_
    · exact .bind (.modify fun _ hs => hs) fun _ => .pure _
    · exact .bind (.modify fun _ hs => hs) fun _ => .pure _

theorem kernelBeginStop_frames : Frames kernelBeginStop := by
  intro live rs
  refine .bind (claimStopController_frames live rs) fun _ => .bind (.read _) fun _ => ?_
  refine .ite (.pure _) (.bind (.ask _) fun _ => .ite (.pure _) ?_)
  exact .bind (.modify fun _ hs => hs) fun _ => .pure _

theorem kernelEndStop_frames : Frames kernelEndStop := by
  intro live rs
  refine .bind (.read _) fun _ => .ite (.pure _) (.bind (.ask _) fun _ => .ite ?_ ?_)
  · exact .bind (.modify fun _ hs => hs) fun _ => .pure _
  · exact .bind (kernelRecoverStop_frames live rs) fun _ => .pure _

theorem inventoryThreads_frames (ts : List ℤ) : Frames (inventoryThreads ts) := by
  intro live releases
  induction ts with
  | nil => exact .pure _
  | cons thread rest ih =>
    refine .bind (.read _) fun d => .ite (.bind (.ite (.ask _) (.pure _)) fun _ => ?_) ih
    refine .ite (.pure _) ?_
    split
    · exact .pure _
    · exact .bind (.modify fun _ hs => hs) fun _ => ih

theorem refreshThreadInventory_frames : Frames refreshThreadInventory := by
  intro live rs
  refine .bind (.read _) fun d => .ite (.pure _) ?_
  refine .bind (kernelRenewStop_frames d.stopToken live rs) fun _ => ?_
  refine .ite (.bind (.modify fun _ hs => hs) fun _ => .pure _) (.bind (.ask _) fun _ => ?_)
  split
  · exact .pure _
  split
  · exact .pure _
  · refine .bind (.modify fun _ hs => hs) fun _ => ?_
    refine .bind (inventoryThreads_frames _ live rs) fun _ => .ite (.pure _) ?_
    exact .bind (.modify fun _ hs => hs) fun _ => .pure _

theorem ioFails_frames : Frames ioFails := fun _ _ => .perform fun _ _ hs => hs

theorem finishResumePacket_frames : Frames finishResumePacket := by
  intro live rs
  refine .bind (ioFails_frames live rs) fun _ => .ite (.pure _) ?_
  exact .bind (.modify fun _ hs => hs) fun _ => .pure _

/-- A successful sweep of at least the pending entries, with no write pending. -/
theorem sweep_quiet (ha : ∀ b, select b → Occupied b)
    (hp : ∀ b, b.patch.state = .restorePending → select b) (hs : Sealed d)
    (hi : ¬memoryWriteHasPending d.live.write) :
    (onTable (removeEach select (List.finRange maxBreakpoints))).wp (fun r t =>
      Sealed t ∧ (0 ≤ r → Quiet t.live)) d := by
  apply wp_and (onTable_sealed (removeEach_sound ha) d hs)
  apply wp_onTable
  apply (removeEach_pending ha hp hs.table).mono
  exact fun r t hc hsu => ⟨hc hsu, hi⟩

theorem removeAll_quiet (hs : Sealed d) (hi : ¬memoryWriteHasPending d.live.write) :
    (onTable breakpointRemoveAll).wp (fun r t => Sealed t ∧ (0 ≤ r → Quiet t.live)) d := by
  refine sweep_quiet (by simp) (fun b hu => ?_) hs hi
  simp [Occupied, hu]

/-- A restoration that reports success leaves nothing uncertain. -/
theorem restoreAll_spec (hs : Sealed d) :
    restoreAll.wp (fun ok t => Sealed t ∧ (ok = true → Quiet t.live)) d := by
  have hr : (onLive memoryWriteRestorePending).wp (fun r t => Sealed t ∧
      (0 ≤ r → ¬memoryWriteHasPending t.live.write)) d :=
    wp_and (onLive_sealed restorePending_sound d hs)
      (wp_lift livePart (restorePending_discharges d.live))
  simp only [restoreAll, wp_bind, wp_ite, wp_pure]
  apply hr.mono
  rintro r t ⟨hs, hd⟩
  refine ⟨fun _ => ⟨hs, by simp⟩, fun hsu => ?_⟩
  apply (removeAll_quiet hs (hd (by omega))).mono
  exact fun removed u h => ⟨h.1, fun ok => h.2 (of_decide_eq_true ok)⟩

theorem releaseFailedClient_sealed (endResult : ℤ) (hs : Sealed d) (hq : Quiet d.live) :
    (releaseFailedClient endResult).wp (fun _ t => Sealed t) d := by
  simp only [releaseFailedClient, wp_bind, wp_modify]
  split
  · exact (Sealed.release (d := closeSocket (kernelAbandonStop d)) (hs.of_same ⟨rfl, rfl⟩)
      hq).of_same ⟨rfl, rfl⟩
  · exact (Sealed.release (d := closeSocket d) (hs.of_same ⟨rfl, rfl⟩) hq).of_same ⟨rfl, rfl⟩

theorem endFailedClient_sealed (hs : Sealed d) (hq : Quiet d.live) :
    endFailedClient.wp (fun _ t => Sealed t) d := by
  simp only [endFailedClient, wp_bind, wp_read, wp_ite, wp_modify]
  apply (kernelEndStop_frames.spec d).mono
  intro er t hsa
  have hk : Quiet t.live := hsa.1 ▸ hq
  refine ⟨fun _ => ?_, fun _ => releaseFailedClient_sealed er (hs.of_same hsa) hk⟩
  apply (removeAll_quiet (hs.of_same hsa) hk.write).mono
  rintro removed u ⟨hs, hc⟩
  refine ⟨fun _ => hs.of_same ⟨rfl, rfl⟩, fun hsu => ?_⟩
  apply (kernelEndStop_frames.spec u).mono
  intro a v hsa
  exact releaseFailedClient_sealed a (hs.of_same hsa) (hsa.1 ▸ hc (by omega))

theorem quiet_of_inactive {l : LiveState} (hi : (breakpointAnyActive l.target.breakpoints ||
      decide (memoryWriteHasPending l.write)) = false) : Quiet l := by
  rw [Bool.or_eq_false_iff] at hi
  refine ⟨fun i hu => ?_, of_decide_eq_false hi.2⟩
  have hn : breakpointActiveCount l.target.breakpoints = 0 :=
    not_not.mp (of_decide_eq_false hi.1)
  have he := countP_eq_zero.mp hn i (mem_finRange i)
  simp [breakpointPatchRequiresRestore, hu] at he

theorem cleanFailedClient_spec (hs : Sealed d) (coherentStop : Bool)
    (hq : coherentStop = false → Quiet d.live) :
    (cleanFailedClient coherentStop).wp (fun ok t => Sealed t ∧ (ok = true → Quiet t.live)) d := by
  rw [cleanFailedClient, wp_ite]
  exact ⟨fun _ => restoreAll_spec hs, fun hl => ⟨hs, fun _ => hq (by simpa using hl)⟩⟩

/-- The client failure releases the target only after everything is restored, or
when there is nothing to restore. -/
theorem failStoppedClientOwned_sealed : Preserves Sealed failStoppedClientOwned := by
  have hc : Frames coherentResult := fun live rs =>
    .bind (.read _) fun _ => .ite (kernelRecoverStop_frames live rs) (.pure _)
  intro d hs
  simp only [failStoppedClientOwned, wp_bind, wp_read, wp_ite, wp_modify]
  apply (hc.spec d).mono
  intro r t hsa
  refine ⟨fun _ => hs.of_same hsa, fun ha => ?_⟩
  have hq : decide (0 ≤ r) = false → Quiet t.live := by
    intro hl
    rw [hsa.1]
    apply quiet_of_inactive
    simpa [stopCleanupCanRelease, hl] using ha
  apply (cleanFailedClient_spec (hs.of_same hsa) _ hq).mono
  rintro cleaned u ⟨hs, hcl⟩
  refine ⟨fun _ => hs.of_same ⟨rfl, rfl⟩, fun hsu => ?_⟩
  exact endFailedClient_sealed hs (hcl (by simpa using hsu))

theorem failStoppedClient_sealed : Preserves Sealed failStoppedClient :=
  .bind claimStopController_frames.sealed fun _ => failStoppedClientOwned_sealed

theorem beginStoppedOperation_spec (hs : Sealed d) :
    beginStoppedOperation.wp (fun r t => Sealed t ∧ (0 ≤ r → t.live = d.live)) d := by
  simp only [beginStoppedOperation, wp_bind, wp_ite, wp_pure]
  apply (claimStopController_frames.spec d).mono
  intro _ t hf
  apply (refreshThreadInventory_frames.spec t).mono
  intro refreshed u hse
  have hs' := (hs.of_same hf).of_same hse
  refine ⟨fun _ => ⟨hs', fun _ => hse.1.trans hf.1⟩, fun _ => ?_⟩
  apply (failStoppedClientOwned_sealed u hs').mono
  exact fun _ v hs => ⟨hs, by simp⟩

theorem withStopped_sealed {body : Debug Bool} (hs : Sealed d)
    (hse : ∀ t, Sealed t → t.live = d.live → body.wp (fun _ u => Sealed u) t) :
    (withStopped body).wp (fun _ u => Sealed u) d := by
  simp only [withStopped, wp_bind, wp_ite, wp_pure]
  apply (beginStoppedOperation_spec hs).mono
  rintro r t ⟨hs, hsa⟩
  exact ⟨fun _ => hs, fun hsu => hse t hs (hsa (by omega))⟩

theorem packetComplete_sealed : Preserves Sealed packetComplete :=
  .bind ioFails_frames.sealed fun _ =>
    .ite (.bind failStoppedClient_sealed fun _ => .pure _) (.pure _)

theorem leaveOwned_sealed : Preserves Sealed leaveOwned :=
  .bind failStoppedClientOwned_sealed fun _ => .pure _

theorem leaveResumed_sealed : Preserves Sealed leaveResumed :=
  .bind finishResumePacket_frames.sealed fun _ =>
    .ite (.bind failStoppedClient_sealed fun _ => .pure _) (.pure _)

theorem serveMutation_sealed (r u : ℤ) : Preserves Sealed (serveMutation r u) :=
  .ite leaveOwned_sealed packetComplete_sealed

theorem serveDetach_sealed : Preserves Sealed serveDetach := by
  intro d hs
  simp only [serveDetach, wp_bind, wp_ite, wp_modify, wp_pure]
  apply (restoreAll_spec hs).mono
  rintro restored t ⟨hs, hc⟩
  refine ⟨fun _ => leaveOwned_sealed t hs, fun hsu => ?_⟩
  apply (kernelEndStop_frames.spec t).mono
  intro ended u hf
  refine ⟨fun _ => leaveOwned_sealed u (hs.of_same hf), fun _ => ?_⟩
  apply (ioFails_frames.spec u).mono
  intro _ v hse
  have hq : Quiet v.live := by
    rw [hse.1, hf.1]
    exact hc (by simpa using hsu)
  exact (Sealed.release (d := closeSocket v)
    (((hs.of_same hf).of_same hse).of_same ⟨rfl, rfl⟩) hq).of_same ⟨rfl, rfl⟩

/-- A step target is armed only in a table without pending entries. -/
theorem armStep_spec (plan : ResumePlan) (hs : Sealed d) (hq : Quiet d.live) :
    (armStep plan).wp (fun r t => Sealed t ∧ (0 ≤ r → Quiet t.live)) d := by
  rw [armStep, wp_ite]
  refine ⟨fun _ => ?_, fun _ => ⟨hs, fun _ => hq⟩⟩
  rw [breakpointInsertStepThread, wp_bind, wp_ask]
  intro w
  split
  · exact ⟨hs, fun _ => hq⟩
  apply wp_and (onTable_sealed (insertInternal_sound _ _ _) d hs)
  apply wp_onTable
  apply (insertInternal_spec hs.table.guards _ _ true).mono
  exact fun r t hi hsu => ⟨inserted_pending hi.2 hq.slots hsu, hq.write⟩

/-- A resume plan is applied safely while no memory write is pending: it retries
the breakpoint table but not the write. -/
theorem applyResumePlan_sealed (plan : ResumePlan) (hpo : Bool) (hs : Sealed d)
    (hi : ¬memoryWriteHasPending d.live.write) :
    (applyResumePlan plan hpo).wp (fun _ t => Sealed t) d := by
  simp only [applyResumePlan, wp_bind, wp_ite, wp_modify, wp_pure, wp_read]
  apply (sweep_quiet (fun b hu => by simp [Occupied, of_decide_eq_true hu])
    (fun b hu => by simp [hu]) hs hi).mono
  rintro restored t ⟨hs, hc⟩
  refine ⟨fun _ => hs, fun hsu => ⟨fun _ => hs, fun _ => ?_⟩⟩
  apply (armStep_spec plan hs (hc (by omega))).mono
  rintro patched u ⟨hs, hq⟩
  refine ⟨fun _ => hs, fun _ => ⟨fun _ => hs, fun ha => ?_⟩⟩
  have hq : Quiet u.live := hq (by omega)
  refine ⟨fun _ => hs.release hq, fun _ => ?_⟩
  apply (kernelEndStop_frames.spec u).mono
  intro ended v hsa
  refine ⟨fun _ => hs.of_same hsa, fun _ => ?_⟩
  exact (hs.of_same hsa).release (hsa.1 ▸ hq)

theorem applyPlanned_sealed (p : Option ResumePlan) (hpo : Bool) (hs : Sealed d)
    (hi : ¬memoryWriteHasPending d.live.write) :
    (applyPlanned p hpo).wp (fun _ t => Sealed t) d := by
  cases p with
  | none => exact hs
  | some p => exact applyResumePlan_sealed p hpo hs hi

theorem serveResume_sealed (stepping : Bool) (o : Bytes) (hs : Sealed d)
    (hi : ¬memoryWriteHasPending d.live.write) :
    (serveResume stepping o).wp (fun _ t => Sealed t) d := by
  simp only [serveResume, wp_bind, wp_read]
  apply (applyPlanned_sealed _ _ hs hi).mono
  intro result t hs
  exact Preserves.ite (.bind ioFails_frames.sealed fun _ => .pure _)
    (.ite leaveOwned_sealed leaveResumed_sealed) t hs

theorem serveVCont_sealed (p : Bytes) (hs : Sealed d)
    (hi : ¬memoryWriteHasPending d.live.write) :
    (serveVCont p).wp (fun _ t => Sealed t) d := by
  simp only [serveVCont, wp_bind, wp_read]
  apply (applyPlanned_sealed _ _ hs hi).mono
  intro result t hs
  exact Preserves.ite packetComplete_sealed (.ite leaveOwned_sealed leaveResumed_sealed) t hs

theorem serveFileReply_sealed (i : Bool) (hs : Sealed d)
    (hq : i = false → Quiet d.live) :
    (serveFileReply i).wp (fun _ t => Sealed t) d := by
  cases i with
  | true => exact packetComplete_sealed d hs
  | false =>
    simp only [serveFileReply, Bool.false_eq_true, ↓reduceIte, wp_bind]
    apply (ioFails_frames.spec d).mono
    intro failed t hf
    rw [wp_ite]
    refine ⟨fun _ => leaveOwned_sealed t (hs.of_same hf), fun _ => ?_⟩
    rw [wp_bind]
    apply (ioFails_frames.spec t).mono
    intro _ u hse
    rw [wp_bind]
    apply (kernelEndStop_frames.spec u).mono
    intro ended v ht
    have hk : Sealed v := ((hs.of_same hf).of_same hse).of_same ht
    rw [wp_ite]
    refine ⟨fun _ => leaveOwned_sealed v hk, fun _ => ?_⟩
    simp only [wp_bind, wp_modify, wp_pure]
    have hsa : v.live = d.live := ht.1.trans (hse.1.trans hf.1)
    exact (hk.release (hsa ▸ hq rfl)).of_same ⟨rfl, rfl⟩

/-- The packets whose handlers skip an obligation come only while it is absent. -/
def RequestSafe (live : LiveState) : Request → Prop
  | .resume _ _ => ¬memoryWriteHasPending live.write
  | .vCont _ => ¬memoryWriteHasPending live.write
  | .fileReply interrupted => interrupted = false → Quiet live
  | _ => True

instance (live : LiveState) : (request : Request) → Decidable (RequestSafe live request)
  | .malformed | .query | .select _ _ | .memoryWrite _ _ _ | .insertBreakpoint _ _
  | .removeBreakpoint _ | .detach => inferInstanceAs (Decidable True)
  | .resume _ _ => inferInstanceAs (Decidable (¬_))
  | .vCont _ => inferInstanceAs (Decidable (¬_))
  | .fileReply _ => inferInstanceAs (Decidable (_ → _))

theorem serve_sealed (p : Request) (hs : Sealed d) (hsf : RequestSafe d.live p) :
    p.serve.wp (fun _ t => Sealed t) d := by
  cases p with
  | malformed => exact packetComplete_sealed d hs
  | query => exact withStopped_sealed hs fun t hk _ => packetComplete_sealed t hk
  | select operation text =>
    refine withStopped_sealed hs fun t hk _ => ?_
    exact Preserves.bind (.modify fun _ h => h.of_same ⟨rfl, rfl⟩)
      (fun _ => packetComplete_sealed) t hk
  | memoryWrite a data size =>
    refine withStopped_sealed hs fun t hk _ => ?_
    exact Preserves.bind (onLive_sealed (memoryWriteLive_sound _ _ _))
      (fun _ => serveMutation_sealed _ _) t hk
  | insertBreakpoint a kind =>
    refine withStopped_sealed hs fun t hk _ => ?_
    exact Preserves.bind (onTable_sealed (insertInternal_sound _ _ _))
      (fun _ => serveMutation_sealed _ _) t hk
  | removeBreakpoint a =>
    refine withStopped_sealed hs fun t hk _ => ?_
    exact Preserves.bind (onTable_sealed (remove_sound _)) (fun _ => serveMutation_sealed _ _) t hk
  | detach => exact withStopped_sealed hs fun t hk _ => serveDetach_sealed t hk
  | resume st o =>
    exact withStopped_sealed hs fun t hk hsa =>
      serveResume_sealed st o hk (hsa ▸ hsf)
  | vCont text =>
    exact withStopped_sealed hs fun t hk hsa => serveVCont_sealed text hk (hsa ▸ hsf)
  | fileReply i =>
    exact withStopped_sealed hs fun t hk hsa =>
      serveFileReply_sealed i hk (hsa ▸ hsf)

theorem mainLoopRound_sealed (p : Request) (hs : Sealed d)
    (hsf : RequestSafe d.live p) : (mainLoopRound p).wp (fun _ t => Sealed t) d := by
  have hf : Preserves Sealed (do failStoppedClient; pure false : Debug Bool) :=
    .bind failStoppedClient_sealed fun _ => .pure _
  simp only [mainLoopRound, wp_bind, wp_read]
  rw [wp_ite]
  refine ⟨fun _ => hf d hs, fun _ => ?_⟩
  rw [wp_bind]
  apply (ioFails_frames.spec d).mono
  intro failed t hsa
  rw [wp_ite]
  exact ⟨fun _ => hf t (hs.of_same hsa),
    fun _ => serve_sealed p (hs.of_same hsa) (hsa.1 ▸ hsf)⟩

theorem noteException_same {t : ℤ} {n : Debugger}
    (ho : noteException t d = some n) :
    n.live = d.live ∧ n.releases = d.releases := by
  simp only [noteException] at ho
  split_ifs at ho
  · obtain rfl := Option.some.inj ho
    exact ⟨rfl, rfl⟩
  · obtain rfl := Option.some.inj ho
    exact ⟨rfl, rfl⟩

theorem exceptionHandler_sealed (thread : ℤ) (fileRequest : Bool) :
    Preserves Sealed (exceptionHandler thread fileRequest) := by
  have ht : Preserves Sealed (onTable breakpointRemoveTemporary) :=
    onTable_sealed (removeEach_sound fun _ hc => (of_decide_eq_true hc).1)
  intro d hs
  simp only [exceptionHandler, wp_bind, wp_read]
  split
  · simp only [wp_bind, wp_modify, wp_pure]
    exact hs.of_same ⟨rfl, rfl⟩
  next n ho =>
  simp only [wp_bind, wp_modify]
  have hsa := noteException_same ho
  have hk : Sealed n := hs.of_same hsa
  apply (kernelBeginStop_frames.sealed n hk).mono
  intro begun t hk
  rw [wp_ite]
  refine ⟨fun _ => Preserves.bind failStoppedClient_sealed (fun _ => .pure _) t hk,
    fun _ => withStopped_sealed hk fun u hk _ => ?_⟩
  refine Preserves.bind (.read _) (fun v => ?_) u hk
  split
  · exact leaveOwned_sealed
  · refine .bind (.modify fun _ h => h.of_same ⟨rfl, rfl⟩) fun _ => ?_
    refine .bind ht fun _ => .ite leaveOwned_sealed (.ite ?_ (.pure _))
    exact .bind ioFails_frames.sealed fun _ => .pure _

/-- The events under which every release is safe. -/
def EventSafe : Event → Debugger → Prop
  | .request packet, d => RequestSafe d.live packet
  | _, _ => True

instance : (event : Event) → (d : Debugger) → Decidable (EventSafe event d)
  | .request packet, d => inferInstanceAs (Decidable (RequestSafe d.live packet))
  | .exception _ _, _ | .enter, _ | .disconnect, _ | .interrupt, _ | .clientFailure, _
  | .leaseRenew, _ => inferInstanceAs (Decidable True)

theorem event_sealed (e : Event) (hs : Sealed d) (hsa : EventSafe e d) :
    e.program.wp (fun _ t => Sealed t) d := by
  have serving : ∀ serving : Bool, Preserves Sealed
      (Prog.modify fun d => { d with serving } : Debug Unit) :=
    fun _ => .modify fun _ h => h.of_same ⟨rfl, rfl⟩
  cases e with
  | exception th fr =>
    exact Preserves.bind (exceptionHandler_sealed th fr) serving d hs
  | request p =>
    rw [Event.program, wp_bind]
    exact (mainLoopRound_sealed p hs hsa).mono fun go t hk =>
      serving go t hk
  | enter =>
    refine Preserves.bind (.read _) (fun _ => .ite (.pure _) (.bind (.ask _) fun _ => ?_)) d hs
    exact .modify fun _ h => h.of_same ⟨rfl, rfl⟩
  | disconnect => exact Preserves.modify (fun _ h => h.of_same ⟨rfl, rfl⟩) d hs
  | interrupt => exact Preserves.modify (fun _ h => h.of_same ⟨rfl, rfl⟩) d hs
  | clientFailure => exact Preserves.modify (fun _ h => h.of_same ⟨rfl, rfl⟩) d hs
  | leaseRenew => exact claimStopController_frames.sealed d hs

theorem debugRun_sealed {mem : Memory} {hs : Helpers} (run : DebugRun EventSafe mem hs d) :
    Sealed d := by
  induction run with
  | start => exact ⟨(emptyTable_guards mem).toTableSound, by simp [booted]⟩
  | step hb e hen ha he ih => exact he.post (event_sealed e ih ha)

/-- Nothing uncertain is left behind by any release, as long as the packets that
skip an obligation come only while it is absent. -/
theorem releases_quiet {mem : Memory} {helpers : Helpers} {d : Debugger}
    (run : DebugRun EventSafe mem helpers d) : ∀ live ∈ d.releases,
      (∀ i, (live.target.breakpoints i).patch.state ≠ .restorePending) ∧
      ¬memoryWriteHasPending live.write := by
  intro live hr
  have hq := (debugRun_sealed run).released live hr
  exact ⟨hq.slots, hq.write⟩

end Session

def noHelpers : Helpers := ⟨fun _ => false, fun _ => false⟩

/-- Every call succeeds and transfers `count` bytes; thread 5 is the only one. -/
def answers (count : ℕ) : DebugReply := ⟨⟨count, fun _ => 0, 0⟩, 7, some [5], none, false⟩

/-- A client connects and thread 5 faults. -/
def attach : List (Event × List DebugReply) :=
  [(.enter, List.replicate 3 (answers 0)), (.exception 5 false, List.replicate 49 (answers 0))]

/-- A byte is written with every transfer complete, and the target continued. -/
def writeThenContinue : List (Event × List DebugReply) :=
  attach ++ [(.request (.memoryWrite 0x8000 [48, 49] 1), List.replicate 60 (answers 1)),
    (.request (.resume false []), List.replicate 60 (answers 1))]

theorem releases_quiet_after_write : ∃ d, DebugRun EventSafe (fun _ => 0) noHelpers d ∧
    ∃ live ∈ d.releases, ¬memoryWriteHasPending live.write := by
  have ho : (replay EventSafe writeThenContinue (booted (fun _ => 0) noHelpers)).map
      (fun d => d.releases.isEmpty) = some false := by
    decide +kernel
  obtain ⟨d, hre, hr⟩ := Option.map_eq_some_iff.mp ho
  have run := DebugRun.start.replay _ hre
  obtain ⟨live, hm⟩ := exists_mem_of_ne_nil d.releases (isEmpty_eq_false_iff.mp hr)
  exact ⟨d, run, live, hm, (releases_quiet run live hm).2⟩

/-- The write of the byte comes back short, so do its rollback and the retry when
the client is dropped. A new client then continues the target. -/
def shortWriteThenContinue : List (Event × List DebugReply) :=
  attach ++ (.request (.memoryWrite 0x8000 [48, 49] 1),
      List.replicate 20 (answers 1) ++ List.replicate 20 (answers 0)) ::
    attach ++ [(.request (.resume false []), List.replicate 60 (answers 0))]

theorem continue_with_pending_write : ∃ d, DebugRun (fun _ _ => True) (fun _ => 0) noHelpers d ∧
    ∃ live ∈ d.releases, memoryWriteHasPending live.write := by
  have ho : (replay (fun _ _ => True) shortWriteThenContinue (booted (fun _ => 0) noHelpers)).map
      (fun d => d.releases.any fun live => decide (memoryWriteHasPending live.write)) =
        some true := by
    decide +kernel
  obtain ⟨d, hre, hp⟩ := Option.map_eq_some_iff.mp ho
  obtain ⟨live, hr, hh⟩ := any_eq_true.mp hp
  exact ⟨d, DebugRun.start.replay _ hre, live, hr, of_decide_eq_true hh⟩

end VitaDebugger.ResumeBarrier
