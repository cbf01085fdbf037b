import VitaDebugger.MemoryWriteOutcome
import VitaDebugger.RecoveryRecords
import VitaDebugger.ResumeBarrier

/-! The cleanup behind a failed client. The target runs again only over an empty table and with no
write left to undo; every other way out keeps the stop and all that is recorded for a retry. -/

namespace VitaDebugger.FailedClient
open List
open AtomicProgram Prog RelyGuarantee Rules SpanMemory BreakpointPatch BreakpointTable
open MemoryTransaction MemoryWrite DebugSession RecoveryRecords ResumeBarrier

/-- Nothing is left in the table or of a write. -/
structure Clear (live : LiveState) : Prop where
  slots : ∀ i, ¬Occupied (live.target.breakpoints i)
  write : ¬memoryWriteHasPending live.write

/-- One action of the debugger. -/
def Keeps (d t : Debugger) : Prop := Conserves d.live t.live

section Actions

theorem modify_keeps {f : Debugger → Debugger} (hs : ∀ d, (f d).live = d.live) :
    (stepwise Keeps).Always () (Prog.modify f : Debug Unit) :=
  always_modify fun d => by
    rw [Keeps, hs]
    exact .refl _

theorem onLive_keeps {α : Type} {p : Live α} (h : (stepwise Conserves).Always () p) :
    (stepwise Keeps).Always () (onLive p) :=
  always_part livePart h fun _ _ _ hk => hk

theorem onTable_keeps {α : Type} {p : Table α} (h : (stepwise TableConserves).Always () p) :
    (stepwise Keeps).Always () (onTable p) :=
  onLive_keeps (tablePart_conserves h)

theorem kernelRecoverStop_keeps : (stepwise Keeps).Always () kernelRecoverStop := by
  refine (always_look _).bind fun token => ?_
  refine Always.bind (.ite (.pure _) (always_ask _)) fun _ => ?_
  refine .ite (Always.bind (modify_keeps fun _ => rfl) fun _ => .pure _) ?_
  refine (always_ask _).bind fun _ => .ite ?_ ?_
  · exact Always.bind (modify_keeps fun _ => rfl) fun _ => .pure _
  · exact Always.bind (modify_keeps fun _ => rfl) fun _ => .pure _

theorem kernelEndStop_keeps : (stepwise Keeps).Always () kernelEndStop := by
  refine (always_look _).bind fun _ => .ite (.pure _) ?_
  refine (always_ask _).bind fun _ => .ite ?_ ?_
  · exact Always.bind (modify_keeps fun _ => rfl) fun _ => .pure _
  · exact kernelRecoverStop_keeps.bind fun _ => .pure _

theorem restoreAll_keeps : (stepwise Keeps).Always () restoreAll :=
  (onLive_keeps restorePending_conserves).bind fun _ =>
    .ite (.pure _) ((onTable_keeps (removeEach_conserves _ _)).bind fun _ => .pure _)

theorem releaseFailedClient_keeps (endResult : ℤ) :
    (stepwise Keeps).Always () (releaseFailedClient endResult) := by
  refine Always.bind (modify_keeps fun d => ?_) fun _ => modify_keeps fun _ => rfl
  split <;> rfl

theorem endFailedClient_keeps : (stepwise Keeps).Always () endFailedClient := by
  refine kernelEndStop_keeps.bind fun _ => (always_look _).bind fun _ => ?_
  refine .ite ?_ (releaseFailedClient_keeps _)
  refine (onTable_keeps (removeEach_conserves _ _)).bind fun _ => ?_
  refine .ite (modify_keeps fun _ => rfl) ?_
  exact kernelEndStop_keeps.bind fun _ => releaseFailedClient_keeps _

theorem failStoppedClientOwned_keeps : (stepwise Keeps).Always () failStoppedClientOwned := by
  refine (always_look _).bind fun live => ?_
  refine .bind ?_ fun recovered => .ite (modify_keeps fun _ => rfl) ?_
  · refine (always_look _).bind fun _ => ?_
    exact .ite kernelRecoverStop_keeps (.pure _)
  · refine Always.bind (.ite restoreAll_keeps (.pure _)) fun cleaned => ?_
    exact .ite (modify_keeps fun _ => rfl) endFailedClient_keeps

end Actions

/-- The table and the write of a live state, for the addresses alone. -/
def EvenLive (s : LiveState) : Prop := EvenTable s.target

theorem restorePending_even : Preserves EvenLive memoryWriteRestorePending := by
  have hta {α : Type} {p : Table α} (hk : Preserves EvenTable p) :
      Preserves EvenLive (p.lift tablePart) := .lift tablePart fun s he => hk s.target he
  have ht : Preserves EvenLive restoreTransaction :=
    .bind (.read _) fun _ => .ite (.bind (.lift transactionPart fun _ he =>
      wp_of_forall _ fun _ _ => he) fun _ => .pure _) (.pure _)
  refine .bind (.read _) fun _ => .ite (.pure _) ?_
  refine .bind (.bind (.read _) fun list => hta (removeRearmEach_even list)) fun _ =>
    .ite (.pure _) ?_
  refine .bind ht fun _ => .ite (.pure _) ?_
  refine .bind (.bind (.read _) fun list => hta (rearmEach_even list)) fun _ => .ite (.pure _) ?_
  exact .bind (.modify fun _ he => he) fun _ => .pure _

/-- The target is neither released nor marked. -/
def StillStopped (d t : Debugger) : Prop :=
  t.releases = d.releases ∧ t.targetStopped = d.targetStopped

variable {d : Debugger}

theorem StillStopped.trans {t u : Debugger} (hf : StillStopped d t) (hs : StillStopped t u) :
    StillStopped d u :=
  ⟨hs.1.trans hf.1, hs.2.trans hf.2⟩

/-- A kernel call and its bookkeeping. -/
def Unmoved (d t : Debugger) : Prop := t.live = d.live ∧ StillStopped d t

theorem kernelRecoverStop_unmoved (d : Debugger) :
    kernelRecoverStop.wp (fun _ t => Unmoved d t) d := by
  refine (show Preserves (Unmoved d) kernelRecoverStop from ?_) d ⟨rfl, rfl, rfl⟩
  refine .bind (.read _) fun token => .bind (.ite (.pure _) (.ask _)) fun _ => .ite ?_ ?_
  · exact .bind (.modify fun _ hs => hs) fun _ => .pure _
  · refine .bind (.ask _) fun _ => .ite ?_ ?_
    · exact .bind (.modify fun _ hs => hs) fun _ => .pure _
    · exact .bind (.modify fun _ hs => hs) fun _ => .pure _

theorem kernelEndStop_unmoved (d : Debugger) : kernelEndStop.wp (fun _ t => Unmoved d t) d := by
  simp only [kernelEndStop, wp_bind, wp_read, wp_ite, wp_ask, wp_modify, wp_pure]
  refine ⟨fun _ => ⟨rfl, rfl, rfl⟩, fun _ answer => ⟨fun _ => ⟨rfl, rfl, rfl⟩, fun _ => ?_⟩⟩
  exact kernelRecoverStop_unmoved d

/-- The two ways out of the cleanup. -/
inductive Outcome (d t : Debugger) : Prop
  | released (recorded : t.releases = d.releases ++ [t.live]) (running : t.targetStopped = false)
      (clear : Clear t.live) : Outcome d t
  | retained (stopped : StillStopped d t) : Outcome d t

theorem Outcome.after {t u : Debugger} (hb : StillStopped d t) (ho : Outcome t u) :
    Outcome d u := by
  cases ho with
  | released hr hru hc => exact .released (hb.1 ▸ hr) hru hc
  | retained hs => exact .retained (hb.trans hs)

theorem releaseFailedClient_outcome (endResult : ℤ) (hc : Clear d.live) :
    (releaseFailedClient endResult).wp (fun _ t => Outcome d t) d := by
  simp only [releaseFailedClient, wp_bind, wp_modify]
  split <;> exact .released rfl rfl hc

theorem removeAll_clear (hev : EvenTable d.live.target) (hi : ¬memoryWriteHasPending d.live.write) :
    (onTable breakpointRemoveAll).wp (fun r t => StillStopped d t ∧
      (0 ≤ r → Clear t.live)) d := by
  apply wp_onTable
  apply (removeAll_empties hev).mono
  exact fun r t he => ⟨⟨rfl, rfl⟩, fun hs => ⟨he hs, hi⟩⟩

theorem endFailedClient_outcome (hc : Clear d.live) :
    endFailedClient.wp (fun _ t => Outcome d t) d := by
  simp only [endFailedClient, wp_bind, wp_read, wp_ite, wp_modify]
  apply (kernelEndStop_unmoved d).mono
  rintro er t ⟨hsa, hs⟩
  rw [← hsa] at hc
  have he : EvenTable t.live.target := fun i ho => absurd ho (hc.slots i)
  refine ⟨fun _ => ?_, fun _ => ?_⟩
  · apply (removeAll_clear he hc.write).mono
    rintro removed u ⟨hk, hcl⟩
    refine ⟨fun _ => .retained (hs.trans hk), fun hsu => ?_⟩
    apply (kernelEndStop_unmoved u).mono
    rintro a v ⟨hsa, hk'⟩
    apply (releaseFailedClient_outcome a (hsa ▸ hcl (by omega))).mono
    exact fun _ w => .after ((hs.trans hk).trans hk')
  · apply (releaseFailedClient_outcome er hc).mono
    exact fun _ u => .after hs

theorem restoreAll_clear (he : EvenTable d.live.target) :
    restoreAll.wp (fun ok t => StillStopped d t ∧ (ok = true → Clear t.live)) d := by
  simp only [restoreAll, wp_bind, wp_ite, wp_pure]
  apply wp_lift livePart
  apply (wp_and (restorePending_even d.live he) (restorePending_discharges d.live)).mono
  rintro restored live ⟨he', hi⟩
  refine ⟨fun _ => ⟨⟨rfl, rfl⟩, by simp⟩, fun hs => ?_⟩
  apply (removeAll_clear (d := livePart.put d live) he' (hi (by omega))).mono
  exact fun removed u ho => ⟨ho.1, fun ok => ho.2 (of_decide_eq_true ok)⟩

theorem clear_of_inactive {l : LiveState} (hi : (breakpointAnyActive l.target.breakpoints ||
      decide (memoryWriteHasPending l.write)) = false) : Clear l := by
  rw [Bool.or_eq_false_iff] at hi
  refine ⟨fun i ho => ?_, of_decide_eq_false hi.2⟩
  have hn : breakpointActiveCount l.target.breakpoints = 0 :=
    not_not.mp (of_decide_eq_false hi.1)
  have he := countP_eq_zero.mp hn i (mem_finRange i)
  exact he (decide_eq_true ho)

theorem failStoppedClientOwned_outcome (he : EvenTable d.live.target) :
    failStoppedClientOwned.wp (fun _ t => Outcome d t) d := by
  have hc : coherentResult.wp (fun _ t => Unmoved d t) d := by
    simp only [coherentResult, wp_bind, wp_read, wp_ite, wp_pure]
    exact ⟨fun _ => kernelRecoverStop_unmoved d, fun _ => ⟨rfl, rfl, rfl⟩⟩
  simp only [failStoppedClientOwned, wp_bind, wp_read, wp_ite, wp_modify]
  apply hc.mono
  rintro r t ⟨hsa, hs⟩
  refine ⟨fun _ => .retained hs, fun ha => ?_⟩
  have hcl : (cleanFailedClient (decide (0 ≤ r))).wp (fun ok u =>
      StillStopped t u ∧ (ok = true → Clear u.live)) t := by
    rw [cleanFailedClient, wp_ite]
    refine ⟨fun _ => restoreAll_clear (hsa ▸ he), fun hl => ⟨⟨rfl, rfl⟩, fun _ => ?_⟩⟩
    rw [hsa]
    apply clear_of_inactive
    simpa [stopCleanupCanRelease, hl] using ha
  apply hcl.mono
  rintro ok u ⟨hk, hce⟩
  refine ⟨fun _ => .retained (hs.trans hk), fun hsu => ?_⟩
  apply (endFailedClient_outcome (hce (by simpa using hsu))).mono
  exact fun _ v => .after (hs.trans hk)

/-- What `s` records is still recorded in `t`, or was made good in one of the states between. -/
structure Accounted (s : LiveState) (states : List LiveState) (t : LiveState) : Prop where
  slots : ∀ i, Occupied (s.target.breakpoints i) →
    SameRecord (s.target.breakpoints i).patch (t.target.breakpoints i).patch ∨
    ∃ m ∈ states, ¬Occupied (m.target.breakpoints i) ∧
      load m.target.mem (s.target.breakpoints i).patch.address
        (s.target.breakpoints i).patch.size = (s.target.breakpoints i).patch.original
  transaction : memoryTransactionIsPending s.write.transaction →
    t.write.transaction = s.write.transaction ∨
    ∃ m ∈ states, ¬memoryTransactionIsPending m.write.transaction ∧
      load m.target.mem s.write.transaction.address (savedBytes s.write.transaction).length =
        savedBytes s.write.transaction
  rearm : t.write.rearm = s.write.rearm ∨ ∃ m ∈ states, m.write.rearm = [] ∧
    ∀ r ∈ s.write.rearm, InstalledAt m.target.breakpoints (clearBit0 r.address)

section Accounts
variable {s m t : LiveState} {ss : List LiveState}

theorem Accounted.cons (hf : Conserves s m) (hl : Accounted m ss t) : Accounted s (m :: ss) t where
  slots i hoc := by
    rcases hf.table i hoc with ⟨hpr, ha, ho⟩ | ⟨he, hb⟩
    · have hsi : (m.target.breakpoints i).patch.size = (s.target.breakpoints i).patch.size := by
        rw [PatchSlot.size, PatchSlot.size, ho]
      rcases hl.slots i hpr with ⟨hp', ha', ho'⟩ | ⟨n, hm, he, hb⟩
      · exact .inl ⟨hp', ha'.trans ha, ho'.trans ho⟩
      · rw [ha, ho, hsi] at hb
        exact .inr ⟨n, .tail m hm, he, hb⟩
    · exact .inr ⟨m, .head ss, he, hb⟩
  transaction hp := by
    rcases hf.transaction hp with hs | ⟨hc, hb⟩
    · have hs : m.write.transaction = s.write.transaction := hs
      rcases hl.transaction (hs ▸ hp) with hk | ⟨n, hm, hc, hb⟩
      · exact .inl (hk.trans hs)
      · rw [hs] at hb
        exact .inr ⟨n, .tail m hm, hc, hb⟩
    · exact .inr ⟨m, .head ss, hc, hb⟩
  rearm := by
    rcases hf.rearm with hs | ⟨hd, hi⟩
    · rcases hl.rearm with hk | ⟨n, hm, hd, hi⟩
      · exact .inl (hk.trans hs)
      · rw [hs] at hi
        exact .inr ⟨n, .tail m hm, hd, hi⟩
    · exact .inr ⟨m, .head ss, hd, hi⟩

theorem accounted_of_chain (hc : (s :: ss).IsChain Conserves) :
    Accounted s ss ((s :: ss).getLast (cons_ne_nil s ss)) := by
  induction ss generalizing s with
  | nil => exact ⟨fun i ho => .inl ⟨ho, rfl, rfl⟩, fun _ => .inl rfl, .inl rfl⟩
  | cons m rest ih =>
    exact .cons hc.rel (ih hc.tail)

end Accounts

/-- The cleanup behind a failed client, at every result of its kernel calls and callbacks. -/
theorem failed_client_cleanup {d t : Debugger} {states : List Debugger}
    (even : EvenTable d.live.target) (path : failStoppedClientOwned.Path d states () t) :
    Outcome d t ∧ (d :: states).IsChain Keeps ∧ Accounted d.live (states.map (·.live)) t.live := by
  obtain ⟨-, hp, -⟩ := sequential_path (failStoppedClientOwned_keeps d) trivial path
  have hc : (d :: states).IsChain Keeps := by
    refine hp.imp ?_
    rintro m m' (rfl | hk)
    · exact Conserves.refl _
    · exact hk
  have hl : (d.live :: states.map (·.live)).getLast (cons_ne_nil _ _) = t.live := by
    rw [← path.getLast, ← getLast_map (f := Debugger.live)]
    rfl
  have ha := accounted_of_chain ((isChain_map Debugger.live).mpr hc)
  exact ⟨path.ends.post (failStoppedClientOwned_outcome even), hc, hl ▸ ha⟩

/-- A stopped target with one trap. -/
def trappedDebugger : Debugger where
  live := MemoryWriteOutcome.oneTrap
  stopToken := 1
  stopFailed := false
  targetStopped := true
  connected := true
  ioFailed := false
  selection := ThreadControl.threadSelectionReset
  inventory := []
  exceptionThread := -1
  asyncStopPending := false
  asyncStopCancelled := false
  helpers := ⟨fun _ => false, fun _ => false⟩
  serving := true
  releases := []

/-- The same answer to every call: transfers of `count` bytes, kernel calls that succeed. -/
def answers (count : ℕ) : ℕ → DebugReply := fun _ => ⟨{ quiet with count }, 0, none, none, false⟩

/-- With full transfers the target is released over an empty table; with none it stays stopped and
the trap stays recorded. -/
theorem failed_client_cleanup_trap :
    (∃ t, failStoppedClientOwned.Ends trappedDebugger () t ∧ t.targetStopped = false ∧
      Clear t.live) ∧
    ∃ t, failStoppedClientOwned.Ends trappedDebugger () t ∧ t.targetStopped = true ∧
      (t.live.target.breakpoints 0).patch.state = .restorePending ∧ Outcome trappedDebugger t := by
  have hev : EvenTable trappedDebugger.live.target := fun i ho =>
    (MemoryWriteOutcome.oneTrap_sound.wellFormed i ho).even
  constructor
  · have he := ends_run failStoppedClientOwned (answers 2) trappedDebugger
    obtain ⟨sts, hp⟩ := he.path
    refine ⟨_, he, rfl, ?_⟩
    cases (failed_client_cleanup hev hp).1 with
    | released hr hru hc => exact hc
    | retained hs => exact absurd hs.2 (by decide)
  · have he := ends_run failStoppedClientOwned (answers 0) trappedDebugger
    obtain ⟨sts, hp⟩ := he.path
    exact ⟨_, he, rfl, rfl, (failed_client_cleanup hev hp).1⟩

end VitaDebugger.FailedClient
