import VitaDebugger.MemoryWriteOutcome

/-! Which addresses the re-arming of an `M` write can install. Every installed entry and every
record stays within a set of even addresses, as long as the entries that a write captures are
within it. -/

namespace VitaDebugger.RearmRecords
open AtomicProgram Prog BreakpointPatch BreakpointTable BreakpointGuards MemoryTransaction
  MemoryWrite
open MemoryWriteOutcome

structure Armed (within : ℕ → Prop) (s : BreakpointState) : Prop where
  sound : TableSound s
  entries : ∀ i, (s.breakpoints i).patch.state = .installed →
    within (s.breakpoints i).patch.address

section Table
variable {w : ℕ → Prop}

theorem removedAt_installed {b a : Index → Breakpoint} {i j : Index} {r : ℤ}
    (hr : RemovedAt b i r a) (hi : (a j).patch.state = .installed) :
    a j = b j := by
  obtain rfl | different := eq_or_ne j i
  · rcases hr with ⟨-, rfl⟩ | ⟨-, rfl⟩
    · simp [clearedBreakpoint, PatchSlot.cleared] at hi
    · simp [pend] at hi
  · rcases hr with ⟨-, rfl⟩ | ⟨-, rfl⟩ <;> exact Function.update_of_ne different ..

theorem remove_armed (address : ℕ) : Preserves (Armed w) (breakpointRemove address) := by
  intro s ha
  apply (breakpointRemove_spec ha.sound.guards address).mono
  rintro result t ⟨hg, hr⟩
  refine ⟨hg.toTableSound, fun i hi => ?_⟩
  simp only [Removed] at hr
  split at hr
  · rw [hr.2] at hi ⊢
    exact ha.entries i hi
  · have hs := removedAt_installed hr hi
    rw [hs] at hi ⊢
    exact ha.entries i hi

theorem removeEach_armed (select : Breakpoint → Bool) (list : List Index) :
    Preserves (Armed w) (removeEach select list) := by
  induction list with
  | nil => exact .pure 0
  | cons i rest ih =>
    exact .bind (.read _) fun _ =>
      .ite (.bind (remove_armed _) fun _ => .bind ih fun _ => .pure _) ih

theorem removeRearmEach_armed (list : List Rearm) : Preserves (Armed w) (removeRearmEach list) := by
  induction list with
  | nil => exact .pure 0
  | cons rearm rest ih =>
    refine .bind (.read _) fun breakpoints => ?_
    split
    · exact ih
    · exact .bind (remove_armed _) fun _ => .bind ih fun _ => .pure _

theorem insertInternal_armed {address : ℕ} (size : ℕ) (temporary : Bool)
    (hp : w (clearBit0 address)) :
    Preserves (Armed w) (breakpointInsertInternal address size temporary) := by
  intro s ha
  apply (insertInternal_spec ha.sound.guards address size temporary).mono
  rintro result t ⟨hg, hin⟩
  refine ⟨hg.toTableSound, fun j hi => ?_⟩
  have ho : Occupied (t.breakpoints j) := by simp [Occupied, hi]
  rcases hin.entry ho with hs | hh
  · rw [hs] at hi ⊢
    exact ha.entries j hi
  · rwa [hh]

theorem setTemporary_armed {s : BreakpointState} (ha : Armed w s) {i : Index}
    (ho : Occupied (s.breakpoints i)) (t : Bool) :
    Armed w (setTemporary i t s) where
  sound := (ha.sound.guards.setTemporary ho t).toTableSound
  entries j installed := by
    obtain rfl | different := eq_or_ne j i
    · rw [setTemporary, setBreakpoint_self] at installed ⊢
      exact ha.entries j installed
    · rw [setTemporary, setBreakpoint_other different] at installed ⊢
      exact ha.entries j installed

theorem rearmEach_armed {list : List Rearm} (hp : ∀ r ∈ list, w (clearBit0 r.address)) :
    Preserves (Armed w) (rearmEach list) := by
  induction list with
  | nil => exact .pure 0
  | cons rr rest ih =>
    have hl := ih fun r hm => hp r (.tail rr hm)
    intro s ha
    simp only [rearmEach, wp_bind, wp_read]
    split
    · next i hf =>
      rw [wp_ite]
      refine ⟨fun _ => ha, fun _ => ?_⟩
      simp only [wp_bind, wp_modify]
      exact hl _ (setTemporary_armed ha (breakpointFind_some hf).1 rr.temporary)
    · have hi := insertInternal_armed rr.size rr.temporary (hp rr (.head rest))
      exact (Preserves.bind hi fun _ => .ite (.pure _) hl) s ha

end Table

/-- The table and the records of a write name addresses of one set only. -/
structure Recorded (within : ℕ → Prop) (s : LiveState) : Prop where
  table : Armed within s.target
  records : ∀ r ∈ s.write.rearm, within r.address

variable {s : LiveState}

section Live
variable {within : ℕ → Prop}

theorem tablePart_recorded {α : Type} {p : Table α} (hk : Preserves (Armed within) p) :
    Preserves (Recorded within) (p.lift tablePart) :=
  .lift tablePart fun s hr => (hk s.target hr.table).mono fun _ _ ha =>
    ⟨ha, hr.records⟩

theorem transactionPart_recorded {α : Type} (p : Prog TransactionTarget IoReply α) :
    Preserves (Recorded within) (p.lift transactionPart) :=
  .lift transactionPart fun _ hr => wp_of_forall _ fun _ _ =>
    ⟨⟨⟨hr.table.sound.wellFormed, hr.table.sound.disjoint⟩, hr.table.entries⟩, hr.records⟩

theorem settle_recorded : Preserves (Recorded within) (Prog.modify (setRearm []) : Live Unit) :=
  .modify fun _ hr => ⟨hr.table, by simp [setRearm]⟩

theorem removeRearm_recorded : Preserves (Recorded within) memoryWriteRemoveRearmBreakpoints :=
  .bind (.read _) fun r => tablePart_recorded (removeRearmEach_armed r)

theorem restoreTransaction_recorded : Preserves (Recorded within) restoreTransaction :=
  .bind (.read _) fun _ => .ite (.bind (transactionPart_recorded _) fun _ => .pure _) (.pure _)

theorem reserve_recorded (c : ℕ) (bs : Index → Breakpoint) :
    Preserves (fun s => Recorded within s ∧ s.target.breakpoints = bs)
      (memoryWriteStorageReserve c) := by
  refine .bind (.read _) fun _ =>
    .ite (.pure _) (.ite (.pure _) (.ite (.pure _) (.ite (.pure _) ?_)))
  refine .bind (.ask _) fun _ => .ite (.pure _) ?_
  refine .bind (.ask _) fun _ => .ite (.pure _) ?_
  refine .bind (.ask _) fun _ => .ite (.pure _) ?_
  exact .bind (.modify fun _ hk => ⟨⟨hk.1.table, hk.1.records⟩, hk.2⟩) fun _ => .pure _

variable (even : ∀ address, within address → address % 2 = 0)
include even

theorem rearm_recorded : Preserves (Recorded within) memoryWriteRearmBreakpoints := by
  intro s hr
  simp only [memoryWriteRearmBreakpoints, wp_bind, wp_read]
  refine tablePart_recorded (rearmEach_armed fun r hm => ?_) s hr
  have hp := hr.records r hm
  rwa [clearBit0_of_even (even _ hp)]

theorem restorePending_recorded : Preserves (Recorded within) memoryWriteRestorePending := by
  refine .bind (.read _) fun _ => .ite (.pure _) ?_
  refine .bind removeRearm_recorded fun _ => .ite (.pure _) ?_
  refine .bind restoreTransaction_recorded fun _ => .ite (.pure _) ?_
  refine .bind (rearm_recorded even) fun _ => .ite (.pure _) ?_
  exact .bind settle_recorded fun _ => .pure _

theorem abandonWrite_recorded : Preserves (Recorded within) abandonWrite :=
  .bind (restorePending_recorded even) fun _ => .pure _

theorem applyDecoded_recorded (d : Bytes) : Preserves (Recorded within) (applyDecoded d) := by
  refine .bind (transactionPart_recorded _) fun _ => .ite ?_ ?_
  · refine .bind (.read _) fun _ => .ite (.pure _) ?_
    refine .bind (rearm_recorded even) fun _ => .ite (.pure _) ?_
    exact .bind settle_recorded fun _ => .pure _
  · refine .bind (rearm_recorded even) fun _ => .ite (abandonWrite_recorded even) ?_
    refine .bind (transactionPart_recorded _) fun _ => .ite (abandonWrite_recorded even) ?_
    exact .bind settle_recorded fun _ => .pure _

theorem capture_recorded {address size : ℕ} (hr : Recorded within s)
    (hc : ∀ r ∈ overlapping s.target.breakpoints address size, within r.address) :
    (memoryWriteCaptureBreakpoints address size).wp (fun _ t => Recorded within t) s := by
  simp only [memoryWriteCaptureBreakpoints, wp_bind, wp_modify]
  have hl : Recorded within (setRearm (overlapping s.target.breakpoints address size) s) :=
    ⟨hr.table, hc⟩
  apply (removeRearm_recorded _ hl).mono
  intro removed t hr
  rw [wp_ite, wp_bind]
  exact ⟨fun _ => restorePending_recorded even t hr, fun _ => hr⟩

theorem memoryWriteLive_recorded {address size : ℕ} (data : Option Bytes)
    (hr : Recorded within s)
    (hc : ∀ r ∈ overlapping s.target.breakpoints address size, within r.address) :
    (memoryWriteLive address data size).wp (fun _ t => Recorded within t) s := by
  simp only [memoryWriteLive, wp_bind, wp_read, wp_ite, wp_pure]
  refine ⟨fun _ => hr, fun _ => ?_⟩
  apply (reserve_recorded size s.target.breakpoints s ⟨hr, rfl⟩).mono
  rintro reserved t ⟨hr, hs⟩
  refine ⟨fun _ => hr, fun _ => ⟨fun _ => hr, fun _ => ?_⟩⟩
  rw [← hs] at hc
  apply (capture_recorded even hr hc).mono
  intro captured u hr
  refine ⟨fun _ => hr, fun _ => ?_⟩
  apply (transactionPart_recorded _ u hr).mono
  intro prepared v hr
  refine ⟨fun _ => ?_, fun _ => ?_⟩
  · apply (rearm_recorded even v hr).mono
    intro rearmed w hr
    exact ⟨fun _ => settle_recorded w hr, fun _ => hr⟩
  · split
    · exact abandonWrite_recorded even v hr
    · exact applyDecoded_recorded even _ v hr

end Live

/-- The calls that may come between a removal and the next insertion. -/
inductive LiveCall where
  | write (address : ℕ) (data : Option Bytes) (size : ℕ)
  | restoreWrite
  | restoreTable

def LiveCall.program : LiveCall → Live ℤ
  | .write address data size => memoryWriteLive address data size
  | .restoreWrite => memoryWriteRestorePending
  | .restoreTable => breakpointRestorePending.lift tablePart

def captured (s : LiveState) : LiveCall → List Rearm
  | .write address _ size => overlapping s.target.breakpoints address size
  | _ => []

theorem LiveCall.recorded {within : ℕ → Prop} (he : ∀ address, within address → address % 2 = 0)
    (hr : Recorded within s) {call : LiveCall}
    (hc : ∀ r ∈ captured s call, within r.address) :
    call.program.wp (fun _ t => Recorded within t) s := by
  cases call with
  | write address data size => exact memoryWriteLive_recorded he data hr hc
  | restoreWrite => exact restorePending_recorded he s hr
  | restoreTable => exact tablePart_recorded (removeEach_armed _ _) s hr

/-- The states of a debugger that sets and removes breakpoints and writes over them, while the
target changes its memory at will. -/
inductive Reachable : LiveState → Prop
  | start (mem : Memory) (storage : Option ℕ) :
      Reachable ⟨emptyTable mem, storage, memoryTransactionInit none 0, []⟩
  | table {s t : LiveState} {result : ℤ} (before : Reachable s) (call : BreakpointCall)
      (ends : (call.program.lift tablePart).Ends s result t) : Reachable t
  | live {s t : LiveState} {result : ℤ} (before : Reachable s) (call : LiveCall)
      (ends : call.program.Ends s result t) : Reachable t
  | target {s : LiveState} (before : Reachable s) (mem : Memory) :
      Reachable { s with target := { s.target with mem } }

theorem insertStepTargetSized_armed (address size currentPc : ℕ) :
    Preserves (Armed (· % 2 = 0)) (breakpointInsertStepTargetSized address size currentPc) := by
  refine .ite (.pure _) (.ite (.pure _) (.ite (.pure _) ?_))
  exact insertInternal_armed size true (clearBit0_even _)

theorem BreakpointCall.armed (call : BreakpointCall) :
    Preserves (Armed (· % 2 = 0)) call.program := by
  cases call with
  | insert address sz => exact insertInternal_armed sz false (clearBit0_even _)
  | insertTemporary address sz => exact insertInternal_armed sz true (clearBit0_even _)
  | insertStepTarget address cp => exact insertStepTargetSized_armed _ _ _
  | insertStepTargetSized address sz cp => exact insertStepTargetSized_armed _ _ _
  | remove address => exact remove_armed address
  | removeTemporary => exact removeEach_armed _ _
  | restorePending => exact removeEach_armed _ _
  | removeAll => exact removeEach_armed _ _

/-- What a write captures is in the table, and so at an even address. -/
theorem captured_even (hs : TableSound s.target) {call : LiveCall} {r : Rearm}
    (hm : r ∈ captured s call) : r.address % 2 = 0 := by
  cases call with
  | write address data size =>
    obtain ⟨i, ho, -, rfl⟩ := mem_overlapping.mp hm
    exact (hs.wellFormed i ho).even
  | restoreWrite => simp [captured] at hm
  | restoreTable => simp [captured] at hm

theorem Reachable.recorded (hr : Reachable s) : Recorded (· % 2 = 0) s := by
  induction hr with
  | start mem storage =>
    refine ⟨⟨(emptyTable_guards mem).toTableSound, fun i hi => ?_⟩, by simp⟩
    simp [emptyTable, clearedBreakpoint, PatchSlot.cleared] at hi
  | table hb call he ih =>
    exact he.post (tablePart_recorded (BreakpointCall.armed call) _ ih)
  | live hb call he ih =>
    exact he.post (LiveCall.recorded (fun _ hev => hev) ih
      fun r hm => captured_even ih.table.sound hm)
  | target hb mem ih =>
    exact ⟨⟨⟨ih.table.sound.wellFormed, ih.table.sound.disjoint⟩, ih.table.entries⟩, ih.records⟩

/-- Calls none of which captures the entry at `address`. -/
inductive SparingRun (address : ℕ) (s : LiveState) : LiveState → Prop
  | start : SparingRun address s s
  | call {t u : LiveState} {result : ℤ} (before : SparingRun address s t) (call : LiveCall)
      (spares : ∀ r ∈ captured t call, r.address ≠ address) (ends : call.program.Ends t result u) :
      SparingRun address s u

theorem SparingRun.recorded {address : ℕ} {t : LiveState} (run : SparingRun address s t)
    (start : Recorded (fun a => a % 2 = 0 ∧ a ≠ address) s) :
    Recorded (fun a => a % 2 = 0 ∧ a ≠ address) t := by
  induction run with
  | start => exact start
  | call hb call hsp he ih =>
    exact he.post (LiveCall.recorded (fun _ hp => hp.1) ih fun r hm =>
      ⟨captured_even ih.table.sound hm, hsp r hm⟩)

/-- A failed removal leaves its entry pending and no other one at its address. -/
theorem remove_failed (hs : TableSound s.target) (address : ℕ) :
    ((breakpointRemove address).lift tablePart).wp (fun r t => r < 0 →
      (∃ i, (t.target.breakpoints i).patch.state = .restorePending ∧
        (t.target.breakpoints i).patch.address = clearBit0 address) ∧
      ∀ i, (t.target.breakpoints i).patch.state = .installed →
        (t.target.breakpoints i).patch.address ≠ clearBit0 address) s := by
  apply wp_lift
  apply (breakpointRemove_spec hs.guards address).mono
  rintro r t ⟨-, hr⟩ hfa
  cases hf : breakpointFind s.target.breakpoints address with
  | none =>
    simp only [Removed, hf] at hr
    omega
  | some i =>
    simp only [Removed, hf] at hr
    obtain ⟨ho, hh⟩ := breakpointFind_some hf
    rcases hr with ⟨hz, -⟩ | ⟨-, hsa⟩
    · omega
    simp only [tablePart, hsa]
    refine ⟨⟨i, by simp [pend], by simpa [pend] using hh⟩, fun j hi ht => ?_⟩
    have hd : j ≠ i := by
      rintro rfl
      simp [pend] at hi
    rw [Function.update_of_ne hd] at hi ht
    have ho' : Occupied (s.target.breakpoints j) := by simp [Occupied, hi]
    exact hd (hs.guards.address_injective ho' ho (ht.trans hh.symm))

/-- After a removal that failed, calls that do not capture the entry again never install a
breakpoint at its address, provided that it was not recorded for re-arming by then. -/
theorem removed_breakpoint_stays_out {address : ℕ} {s t u : LiveState} {result : ℤ}
    (reachable : Reachable s)
    (removed : ((breakpointRemove address).lift tablePart).Ends s result t) (failed : result < 0)
    (unlisted : ∀ r ∈ t.write.rearm, r.address ≠ clearBit0 address)
    (run : SparingRun (clearBit0 address) t u) :
    (∃ i, (t.target.breakpoints i).patch.state = .restorePending ∧
      (t.target.breakpoints i).patch.address = clearBit0 address) ∧
    ∀ i, (u.target.breakpoints i).patch.state = .installed →
      (u.target.breakpoints i).patch.address ≠ clearBit0 address := by
  have hr := reachable.recorded
  have he := removed.post (tablePart_recorded (remove_armed address) s hr)
  have ho := removed.post (remove_failed hr.table.sound address)
  obtain ⟨hp, hg⟩ := ho failed
  refine ⟨hp, fun i installed => ?_⟩
  have hs : Recorded (fun a => a % 2 = 0 ∧ a ≠ clearBit0 address) t :=
    ⟨⟨he.table.sound, fun i installed => ⟨he.table.entries i installed, hg i installed⟩⟩,
      fun r hm => ⟨he.records r hm, unlisted r hm⟩⟩
  exact ((run.recorded hs).table.entries i installed).2

/-- A callback that transfers both bytes, and one that transfers none. -/
def served : ℕ → IoReply := fun _ => { quiet with count := 2 }

def failing : ℕ → IoReply := fun _ => quiet

def idleState : LiveState := ⟨emptyTable fun _ => 0, none, memoryTransactionInit none 0, []⟩

/-- A Thumb trap at `0x8000`. -/
def trapped : LiveState :=
  (((BreakpointCall.insert 0x8000 2).program.lift tablePart).run served idleState).2

theorem trapped_reachable : Reachable trapped :=
  .table (.start (fun _ => 0) none) (.insert 0x8000 2) (ends_run _ served idleState)

/-- The trap behind a removal that could not write. -/
def pendingTrap : LiveState :=
  (((breakpointRemove 0x8000).lift tablePart).run failing trapped).2

theorem pendingTrap_removed :
    ((breakpointRemove 0x8000).lift tablePart).Ends trapped (-8) pendingTrap :=
  ends_run _ failing trapped

/-- The failed removal, then a write over the two bytes behind the trap. -/
theorem removed_breakpoint_stays_out_nearby :
    ∃ u, (memoryWriteLive 0x8002 (some [48, 97, 48, 98]) 2).Ends pendingTrap 0 u ∧
      (∃ i, (pendingTrap.target.breakpoints i).patch.state = .restorePending ∧
        (pendingTrap.target.breakpoints i).patch.address = 0x8000) ∧
      ∀ i, (u.target.breakpoints i).patch.state = .installed →
        (u.target.breakpoints i).patch.address ≠ 0x8000 := by
  have hw := ends_run (LiveCall.write 0x8002 (some [48, 97, 48, 98]) 2).program served
    pendingTrap
  have hs : captured pendingTrap (.write 0x8002 (some [48, 97, 48, 98]) 2) = [] := by decide
  have run : SparingRun 0x8000 pendingTrap _ := .call .start _ (by simp [hs]) hw
  exact ⟨_, hw, removed_breakpoint_stays_out trapped_reachable pendingTrap_removed (by decide)
    (by decide) run⟩

/-- An interrupted write that recorded the trap, and a removal that failed behind it. -/
def recordedTrap : LiveState :=
  let written := ((memoryWriteLive 0x8000 (some [48, 97, 48, 98]) 2).run failing trapped).2
  (((breakpointRemove 0x8000).lift tablePart).run failing written).2

/-- A write over a pending entry installs it again, and so does the retry of a write that had
recorded the entry before its removal failed. -/
theorem removed_breakpoint_installed_again : (∃ u, Reachable trapped ∧
      ((breakpointRemove 0x8000).lift tablePart).Ends trapped (-8) pendingTrap ∧
      (pendingTrap.target.breakpoints 0).patch.state = .restorePending ∧
      (memoryWriteLive 0x8000 (some [48, 97, 48, 98]) 2).Ends pendingTrap 0 u ∧
      (u.target.breakpoints 0).patch.state = .installed ∧
      (u.target.breakpoints 0).patch.address = 0x8000) ∧
    ∃ s u, Reachable s ∧ ((breakpointRemove 0x8000).lift tablePart).Ends s (-8) recordedTrap ∧
      (recordedTrap.target.breakpoints 0).patch.state = .restorePending ∧
      memoryWriteRestorePending.Ends recordedTrap 0 u ∧
      (u.target.breakpoints 0).patch.state = .installed ∧
      (u.target.breakpoints 0).patch.address = 0x8000 := by
  constructor
  · exact ⟨_, trapped_reachable, pendingTrap_removed, rfl, ends_run _ served pendingTrap, rfl,
      rfl⟩
  have hi := ends_run (LiveCall.write 0x8000 (some [48, 97, 48, 98]) 2).program failing trapped
  exact ⟨_, _, .live trapped_reachable _ hi, ends_run _ failing _, rfl,
    ends_run _ served recordedTrap, rfl, rfl⟩

end VitaDebugger.RearmRecords
