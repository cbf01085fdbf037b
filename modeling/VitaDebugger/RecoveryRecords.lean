import VitaDebugger.MemoryWrite
import VitaDebugger.RelyGuarantee

/-! What no single action of the recovery code gives up. A breakpoint entry is dropped only when
memory holds its original bytes again, an open transaction only when its span does, and the list of
breakpoints to re-arm only when each of them is installed. -/

namespace VitaDebugger.RecoveryRecords
open List Function
open AtomicProgram Prog RelyGuarantee Rules SpanMemory BreakpointPatch BreakpointTable
  BreakpointGuards
open MemoryTransaction MemoryWrite

/-- One thread whose every action is a permitted change. -/
def stepwise {σ : Type} (change : σ → σ → Prop) : Rules Unit σ :=
  Rules.sequential (fun _ => True) change (fun _ => True)

section Stepwise
variable {σ τ ω ω' α : Type} {c : σ → σ → Prop}

theorem always_ask (f : ω → α) : (stepwise c).Always () (Prog.ask f : Prog σ ω α) :=
  fun _ => sequential_ask fun _ => trivial

theorem always_look (f : σ → α) : (stepwise c).Always () (Prog.read f : Prog σ ω α) :=
  fun _ => sequential_read fun _ => trivial

theorem always_modify {f : σ → σ} (hp : ∀ s, c s (f s)) :
    (stepwise c).Always () (Prog.modify f : Prog σ ω Unit) := fun s =>
  sequential_modify fun _ => ⟨trivial, hp s, trivial⟩

/-- Any program, where every change is permitted. -/
theorem always_free (all : ∀ s t, c s t) (p : Prog σ ω α) : (stepwise c).Always () p := by
  induction p with
  | ret a => exact fun _ => trivial
  | act u n ih =>
    rintro s t - rfl w -
    exact ⟨trivial, .inr (all _ _), ih s w _⟩

theorem holds_part (part : Part τ σ ω' ω) {c' : τ → τ → Prop} {p : Prog σ ω α}
    {Q : α → σ → Prop} {R : α → τ → Prop} {t : τ}
    (h : (stepwise c).Holds () p Q (part.view t))
    (hp : ∀ m m', c m m' → c' (part.put t m) (part.put t m'))
    (hpo : ∀ a s, Q a s → R a (part.put t s)) :
    (stepwise c').Holds () (p.lift part) R t :=
  sequential_lift part ((sequential_weaken h hp).mono hpo)

theorem always_part (part : Part τ σ ω' ω) {c' : τ → τ → Prop} {p : Prog σ ω α}
    (h : (stepwise c).Always () p)
    (hp : ∀ t m m', c m m' → c' (part.put t m) (part.put t m')) :
    (stepwise c').Always () (p.lift part) := fun t =>
  holds_part part (h (part.view t)) (hp t) fun _ _ _ => trivial

end Stepwise

/-- The slot still records where to restore what. -/
def SameRecord (before after : PatchSlot) : Prop :=
  after.state ≠ .empty ∧ after.address = before.address ∧ after.original = before.original

/-- An occupied slot keeps its record, or is empty over memory that holds its original bytes. -/
def SlotConserves (s t : SlotTarget) : Prop := s.slot.state ≠ .empty → SameRecord s.slot t.slot ∨
    t.slot.state = .empty ∧ load t.mem s.slot.address s.slot.size = s.slot.original

variable {address size : ℕ}

section Slot
variable {t : SlotTarget} {o : Option PatchOwner}

theorem slot_write {inp : Bytes} {Q : ℕ → SlotTarget → Prop}
    (any : ∀ count mem, Q count { t with mem }) :
    (stepwise SlotConserves).Holds () ((ioWrite address inp).lift slotMemory) Q t :=
  sequential_lift slotMemory (sequential_perform fun _ _ =>
    ⟨trivial, fun ho => .inl ⟨ho, rfl, rfl⟩, any _ _⟩)

theorem slot_sync {Q : ℤ → SlotTarget → Prop} (any : ∀ status, Q status t) :
    (stepwise SlotConserves).Holds () ((ioSync address size).lift slotMemory) Q t :=
  sequential_lift slotMemory (sequential_still fun _ => ⟨rfl, any _⟩)

theorem slot_read {Q : Option Bytes → SlotTarget → Prop} (hs : Q none t)
    (hf : Q (some (load t.mem address size)) t) :
    (stepwise SlotConserves).Holds () ((ioRead address size).lift slotMemory) Q t := by
  refine sequential_lift slotMemory (sequential_still fun w => ⟨rfl, ?_⟩)
  by_cases hw : w.count = size
  · simpa [hw, slotMemory] using hf
  · simpa [hw, slotMemory] using hs

theorem slot_identity {slot : PatchSlot} {Q : Bool → SlotTarget → Prop} (any : ∀ b, Q b t) :
    (stepwise SlotConserves).Holds () (breakpointPatchIdentityMatches slot o) Q t := by
  cases o with
  | none => exact any _
  | some o =>
    simp only [breakpointPatchIdentityMatches]
    split
    · exact sequential_ask fun _ => any _
    · exact any false

theorem slot_accepts {Q : Bool → SlotTarget → Prop} (any : ∀ b, Q b t) :
    (stepwise SlotConserves).Holds () (ownerAccepts o) Q t := by
  cases o with
  | none => exact any true
  | some _ => exact sequential_ask fun _ => any _

/-- The slot is cleared only behind a readback of its original bytes. -/
theorem restoreInternal_conserves (o : Option PatchOwner) :
    (stepwise SlotConserves).Always () (breakpointPatchRestoreInternal o) := by
  intro t
  simp only [breakpointPatchRestoreInternal, holds_bind, holds_ite, holds_pure]
  refine sequential_modify fun _ => ⟨trivial, ?_, sequential_read fun _ => ?_⟩
  · exact fun _ => .inl ⟨by simp [setState], rfl, rfl⟩
  refine slot_identity fun owned => ⟨fun _ => trivial, fun _ => ?_⟩
  refine slot_write fun written mem => slot_sync fun synced => slot_read ?_ ?_
  all_goals
    refine ⟨fun _ => trivial, fun hw => sequential_modify fun _ => ⟨trivial, ?_, trivial⟩⟩
    simp only [not_or, not_not] at hw
  · cases hw.2.2
  · exact fun _ => .inr ⟨rfl, Option.some.inj hw.2.2⟩

theorem restoreOwned_conserves (o : Option PatchOwner) :
    (stepwise SlotConserves).Always () (breakpointPatchRestoreOwned o) :=
  (always_look _).bind fun _ => .ite (.pure _) (.ite (.pure _) (restoreInternal_conserves o))

theorem installRollback_conserves (o : Option PatchOwner) (f : PatchResult) :
    (stepwise SlotConserves).Always () (installRollback o f) :=
  (restoreInternal_conserves o).bind fun _ => .pure _

theorem installPublished_conserves (o : Option PatchOwner) (address : ℕ) (p : Bytes) :
    (stepwise SlotConserves).Always () (installPublished o address p) := by
  have hr := installRollback_conserves o
  intro t
  simp only [installPublished, holds_bind, holds_ite]
  refine slot_write fun written mem => ⟨fun _ => hr _ _, fun _ => ?_⟩
  refine slot_sync fun synced => ⟨fun _ => hr _ _, fun _ => slot_read (hr _ _) ?_⟩
  rw [holds_ite]
  refine ⟨fun _ => hr _ _, fun _ => ?_⟩
  rw [holds_bind]
  refine sequential_modify fun _ => ⟨trivial, fun _ => .inl ?_, trivial⟩
  exact ⟨by simp [setState], rfl, rfl⟩

theorem installOwned_conserves (o : Option PatchOwner) (address : ℕ) (p : Bytes) :
    (stepwise SlotConserves).Always () (breakpointPatchInstallOwned o address p) := by
  intro t
  simp only [breakpointPatchInstallOwned, holds_bind, holds_ite, holds_pure]
  refine sequential_read fun _ => ⟨fun _ => trivial, fun _ => ⟨fun _ => trivial, fun hf => ?_⟩⟩
  refine slot_accepts fun _ => ⟨fun _ => trivial, fun _ => slot_read trivial ?_⟩
  simp only [holds_bind, holds_ite, holds_pure]
  refine slot_accepts fun _ => ⟨fun _ => trivial, fun _ => ?_⟩
  exact sequential_modify fun _ => ⟨trivial, fun ho => absurd ho hf,
    installPublished_conserves o address p _⟩

end Slot

/-- Every occupied entry of a table keeps its record, or has been restored. -/
def TableConserves (s t : BreakpointState) : Prop :=
  ∀ i, Occupied (s.breakpoints i) → SameRecord (s.breakpoints i).patch (t.breakpoints i).patch ∨
    ¬Occupied (t.breakpoints i) ∧ load t.mem (s.breakpoints i).patch.address
      (s.breakpoints i).patch.size = (s.breakpoints i).patch.original

variable (list : List Rearm)

section Table

theorem slotPart_conserves (i : Index) (s : BreakpointState) {t u : SlotTarget}
    (hs : SlotConserves t u) : TableConserves ((slotPart i).put s t) ((slotPart i).put s u) := by
  intro j ho
  obtain rfl | different := eq_or_ne j i
  · simp only [slotPart, update_self] at ho ⊢
    simpa [Occupied] using hs ho
  · simp only [slotPart, update_of_ne different] at ho ⊢
    exact .inl ⟨ho, rfl, rfl⟩

theorem setTemporary_conserves (i : Index) (temporary : Bool) (s : BreakpointState) :
    TableConserves s (setTemporary i temporary s) := by
  intro j ho
  obtain rfl | different := eq_or_ne j i
  · simp only [setTemporary, setBreakpoint_self]
    exact .inl ⟨ho, rfl, rfl⟩
  · simp only [setTemporary, setBreakpoint_other different]
    exact .inl ⟨ho, rfl, rfl⟩

theorem remove_conserves (address : ℕ) :
    (stepwise TableConserves).Always () (breakpointRemove address) := by
  refine (always_look _).bind fun breakpoints => ?_
  split
  · exact .pure _
  next i hf =>
  refine Always.bind (always_part (slotPart i) (restoreOwned_conserves none)
    fun s t u hs => slotPart_conserves i s hs) fun _ => .ite ?_ (.pure _)
  exact (always_modify (setTemporary_conserves i false)).bind fun _ =>
    .pure _

theorem removeEach_conserves (select : Breakpoint → Bool) (list : List Index) :
    (stepwise TableConserves).Always () (removeEach select list) := by
  induction list with
  | nil => exact .pure _
  | cons i rest ih =>
    refine (always_look _).bind fun _ => .ite ?_ ih
    exact (remove_conserves _).bind fun _ => ih.bind fun _ =>
      .pure _

theorem removeRearmEach_conserves : (stepwise TableConserves).Always () (removeRearmEach list) := by
  induction list with
  | nil => exact .pure _
  | cons rearm rest ih =>
    refine (always_look _).bind fun _ => ?_
    split
    · exact ih
    · exact (remove_conserves _).bind fun _ => ih.bind fun _ =>
        .pure _

theorem insertAt_conserves (i : Index) (address size : ℕ) (temporary : Bool) :
    (stepwise TableConserves).Always () (insertAt i address size temporary) := by
  refine (always_modify (setTemporary_conserves i temporary)).bind fun _ => ?_
  refine Always.bind (always_part (slotPart i) (installOwned_conserves none _ _)
    fun s t u hs => slotPart_conserves i s hs) fun _ => ?_
  refine Always.bind (always_modify fun s => ?_) fun _ => .pure _
  split
  · exact fun j ho => .inl ⟨ho, rfl, rfl⟩
  · exact setTemporary_conserves i false s

theorem insertInternal_conserves (address size : ℕ) (temporary : Bool) :
    (stepwise TableConserves).Always () (breakpointInsertInternal address size temporary) := by
  refine .ite (.pure _) (.ite (.pure _) ?_)
  refine (always_look _).bind fun breakpoints => ?_
  split
  · exact .ite (.pure _) (.ite (.pure _) (.pure _))
  refine .ite (.pure _) ?_
  split
  · exact .pure _
  · exact insertAt_conserves _ _ _ _

theorem rearmEach_conserves : (stepwise TableConserves).Always () (rearmEach list) := by
  induction list with
  | nil => exact .pure _
  | cons rearm rest ih =>
    refine (always_look _).bind fun _ => ?_
    split
    · refine .ite (.pure _) ?_
      exact (always_modify (setTemporary_conserves _ _)).bind fun _ => ih
    · exact (insertInternal_conserves _ _ _).bind fun _ =>
        .ite (.pure _) ih

end Table

/-- The bytes a transaction restores. -/
def savedBytes (t : Transaction) : Bytes := (t.original.getD []).take t.size

/-- An open transaction stays as it is, or is closed over memory that holds its saved bytes. -/
def TransactionConserves (s t : TransactionTarget) : Prop :=
  memoryTransactionIsPending s.transaction → t.transaction = s.transaction ∨
    ¬memoryTransactionIsPending t.transaction ∧ load t.mem s.transaction.address
      (savedBytes s.transaction).length = savedBytes s.transaction

section Transaction

theorem transactionRestore_conserves :
    (stepwise TransactionConserves).Always () memoryTransactionRestore := by
  intro t
  have hk (mem mem' : Memory) : TransactionConserves ⟨t.transaction, mem⟩ ⟨t.transaction, mem'⟩ :=
    fun _ => .inl rfl
  simp only [memoryTransactionRestore, holds_bind]
  refine sequential_read fun _ => ?_
  cases ho : t.transaction.original with
  | none => trivial
  | some bs =>
    have hs : bs.take t.transaction.size = savedBytes t.transaction := by
      simp [savedBytes, ho]
    simp only [holds_ite, holds_bind, holds_pure, hs]
    refine ⟨fun _ => trivial, fun _ => ?_⟩
    -- the write, the sync and the verification leave the transaction alone
    have hm := always_free (fun _ _ : Memory => trivial)
      (restoreOriginal t.transaction.address (savedBytes t.transaction))
    have hr := sequential_post (hm t.mem)
      (restoreOriginal_spec t.transaction.address (savedBytes t.transaction) t.mem)
    refine holds_part transactionMemory hr (fun m m' _ => hk m m') ?_
    rintro result mem ⟨-, -, hou⟩
    refine ⟨fun _ => trivial, fun hd => ?_⟩
    refine sequential_modify fun _ => ⟨trivial, fun _ => .inr ⟨fun hop => hop rfl, ?_⟩, trivial⟩
    rcases hou with ⟨-, hsa⟩ | hp
    · exact hsa
    · exact absurd (not_not.mp hd) (by simp [hp])

end Transaction

def InstalledAt (breakpoints : Index → Breakpoint) (address : ℕ) : Prop :=
  ∃ i, (breakpoints i).patch.state = .installed ∧ (breakpoints i).patch.address = address

/-- Nothing recorded for recovery is given up before it is done. -/
structure Conserves (s t : LiveState) : Prop where
  table : TableConserves s.target t.target
  transaction : TransactionConserves (transactionPart.view s) (transactionPart.view t)
  rearm : t.write.rearm = s.write.rearm ∨
    t.write.rearm = [] ∧ ∀ r ∈ s.write.rearm, InstalledAt t.target.breakpoints (clearBit0 r.address)

theorem TableConserves.refl (s : BreakpointState) : TableConserves s s :=
  fun _ ho => .inl ⟨ho, rfl, rfl⟩

theorem Conserves.refl (s : LiveState) : Conserves s s := ⟨.refl _, fun _ => .inl rfl, .inl rfl⟩

section Live

theorem tablePart_conserves {α : Type} {p : Table α} (h : (stepwise TableConserves).Always () p) :
    (stepwise Conserves).Always () (p.lift tablePart) :=
  always_part tablePart h fun _ _ _ ht => ⟨ht, fun _ => .inl rfl, .inl rfl⟩

theorem transactionPart_conserves {α : Type} {p : Transact α}
    (h : (stepwise TransactionConserves).Always () p) :
    (stepwise Conserves).Always () (p.lift transactionPart) :=
  always_part transactionPart h fun _ _ _ ht =>
    ⟨fun _ ho => .inl ⟨ho, rfl, rfl⟩, ht, .inl rfl⟩

theorem restoreTransaction_conserves : (stepwise Conserves).Always () restoreTransaction :=
  (always_look _).bind fun _ => .ite
    ((transactionPart_conserves transactionRestore_conserves).bind fun _ =>
      .pure _) (.pure _)

end Live

/-! The table operations on any table at all, sound or not. -/

variable {temporary : Bool} {i : Index}

section AnyTable
variable {s : BreakpointState}

theorem insertInternal_inserted (address size : ℕ) (temporary : Bool) :
    (breakpointInsertInternal address size temporary).wp (fun r t =>
      Inserted address size temporary s.breakpoints r t.breakpoints) s := by
  apply wp_insertInternal
  · exact fun r hn => .refused hn fun _ _ => rfl
  · exact fun i hs hh hw => .present i hs hh hw
  intro i hfr hw hc
  have hv : (s.breakpoints i).patch.state = .empty := not_not.mp hfr
  have hl := trapFor_length hw
  apply wp_insertAt
  apply (installOwned_spec none (clearBit0 address) (trapFor size) _).mono
  intro rs t ho
  cases ho with
  | refused _ hf =>
    refine .refused ((PatchResult.code_neg_iff rs).mpr hf) (sameOccupied_update hfr ?_)
    simp [Occupied, slotPart, hv]
  | rolledBack _ hf =>
    refine .refused ((PatchResult.code_neg_iff rs).mpr hf) (sameOccupied_update hfr ?_)
    simp [Occupied, PatchSlot.cleared]
  | pending _ hr _ off =>
    exact .placed i _ hfr rfl ((load_length _ _ _).trans hl) rfl
      (.inr ⟨by simp [PatchResult.code], rfl⟩)
  | installed _ hr _ off ht =>
    exact .placed i _ hfr rfl ((load_length _ _ _).trans hl) rfl (.inl ⟨rfl, rfl⟩)

theorem inserted_installedAt {r : ℤ} {before a : Index → Breakpoint}
    (hin : Inserted address size temporary before r a) :
    (∀ x, InstalledAt before x → InstalledAt a x) ∧
      (0 ≤ r → InstalledAt a (clearBit0 address)) := by
  cases hin with
  | refused hfa hsa =>
    refine ⟨fun x ⟨i, hs, hh⟩ => ⟨i, ?_⟩, fun hsu => by omega⟩
    rw [hsa i (.inr (by simp [Occupied, hs]))]
    exact ⟨hs, hh⟩
  | present i hs hh hw => exact ⟨fun _ hi => hi, fun _ => ⟨i, hs, hh⟩⟩
  | placed i b hf hh hw hfl hs =>
    constructor
    · rintro x ⟨j, hi, ht⟩
      have hd : j ≠ i := by
        rintro rfl
        exact hf (by simp [Occupied, hi])
      exact ⟨j, by rwa [update_of_ne hd], by rwa [update_of_ne hd]⟩
    intro hsu
    rcases hs with ⟨-, hi⟩ | ⟨hn, -⟩
    · exact ⟨i, by simpa using hi, by simpa using hh⟩
    · omega

theorem setTemporary_installedAt {x : ℕ} (hi : InstalledAt s.breakpoints x) :
    InstalledAt (setTemporary i temporary s).breakpoints x := by
  obtain ⟨j, state, hh⟩ := hi
  refine ⟨j, ?_⟩
  obtain rfl | different := eq_or_ne j i
  · rw [setTemporary, setBreakpoint_self]
    exact ⟨state, hh⟩
  · rw [setTemporary, setBreakpoint_other different]
    exact ⟨state, hh⟩

theorem rearmEach_installed : (rearmEach list).wp (fun rs t =>
      (∀ x, InstalledAt s.breakpoints x → InstalledAt t.breakpoints x) ∧
        (0 ≤ rs → ∀ r ∈ list, InstalledAt t.breakpoints (clearBit0 r.address))) s := by
  induction list generalizing s with
  | nil => exact ⟨fun _ hi => hi, by simp⟩
  | cons rr rest ih =>
    simp only [rearmEach, wp_bind, wp_read]
    cases hf : breakpointFind s.breakpoints rr.address with
    | some i =>
      rw [wp_ite]
      refine ⟨fun _ => ⟨fun _ hi => hi, by simp⟩, fun hsa => ?_⟩
      simp only [wp_bind, wp_modify]
      apply ih.mono
      rintro rs t ⟨hk, hd⟩
      have hh : InstalledAt s.breakpoints (clearBit0 rr.address) :=
        ⟨i, not_not.mp hsa, (breakpointFind_some hf).2⟩
      refine ⟨fun x hi => hk x (setTemporary_installedAt hi), fun hs => ?_⟩
      exact forall_mem_cons.mpr ⟨hk _ (setTemporary_installedAt hh), hd hs⟩
    | none =>
      simp only [wp_bind]
      apply (insertInternal_inserted _ _ _).mono
      intro first t hin
      obtain ⟨hst, hp⟩ := inserted_installedAt hin
      rw [wp_ite]
      refine ⟨fun _ => ⟨hst, by simp⟩, fun hs => ?_⟩
      apply ih.mono
      rintro rs u ⟨hk, hd⟩
      refine ⟨fun x hi => hk x (hst x hi), fun hs' => ?_⟩
      exact forall_mem_cons.mpr ⟨hk _ (hp (by omega)), hd hs'⟩

end AnyTable

section Write

theorem removeRearm_conserves : (stepwise Conserves).Always () memoryWriteRemoveRearmBreakpoints :=
  (always_look _).bind fun r => tablePart_conserves (removeRearmEach_conserves r)

theorem rearm_conserves : (stepwise Conserves).Always () memoryWriteRearmBreakpoints :=
  (always_look _).bind fun r => tablePart_conserves (rearmEach_conserves r)

theorem rearm_installed (s : LiveState) : memoryWriteRearmBreakpoints.wp (fun result t =>
    t.write = s.write ∧ (0 ≤ result → ∀ r ∈ s.write.rearm,
      InstalledAt t.target.breakpoints (clearBit0 r.address))) s := by
  simp only [memoryWriteRearmBreakpoints, wp_bind, wp_read]
  apply wp_lift
  apply (rearmEach_installed s.write.rearm).mono
  exact fun result t ho => ⟨rfl, ho.2⟩

/-- The list of a write is dropped only when all of it is installed. -/
theorem restorePending_conserves : (stepwise Conserves).Always () memoryWriteRestorePending := by
  refine (always_look _).bind fun _ => .ite (.pure _) ?_
  refine removeRearm_conserves.bind fun _ => .ite (.pure _) ?_
  refine restoreTransaction_conserves.bind fun _ =>
    .ite (.pure _) ?_
  intro s
  rw [holds_bind]
  apply (sequential_post (rearm_conserves s) (rearm_installed s)).mono
  rintro result t ⟨-, hs, hi⟩
  rw [holds_ite, holds_bind]
  refine ⟨fun _ => trivial, fun hsu => sequential_modify fun _ => ⟨trivial, ?_, trivial⟩⟩
  refine ⟨.refl _, fun _ => .inl rfl, .inr ⟨rfl, ?_⟩⟩
  rw [hs]
  exact hi (by omega)

end Write

/-! Tables with even addresses, as every insertion leaves them. -/

def EvenTable (s : BreakpointState) : Prop :=
  ∀ i, Occupied (s.breakpoints i) → (s.breakpoints i).patch.address % 2 = 0

section Even
variable {s : BreakpointState}

/-- A removal on any table: the entry found for the address is emptied, or stays where it is. -/
def AnyRemoved (before : Index → Breakpoint) (address : ℕ) (result : ℤ)
    (after : Index → Breakpoint) : Prop :=
  match breakpointFind before address with
  | none => result = 0 ∧ after = before
  | some i => (∀ j, j ≠ i → after j = before j) ∧ (result = 0 ∧ ¬Occupied (after i) ∨
      result < 0 ∧ (after i).patch.address = (before i).patch.address)

theorem restoreOwned_any (owner : Option PatchOwner) {t : SlotTarget} (ho : t.slot.state ≠ .empty) :
    (breakpointPatchRestoreOwned owner).wp (fun r u => r = .ok ∧ u.slot.state = .empty ∨
      r ≠ .ok ∧ u.slot.address = t.slot.address) t := by
  simp only [breakpointPatchRestoreOwned, wp_bind, wp_read, wp_ite, wp_pure]
  refine ⟨fun he => absurd he ho, fun _ => ⟨fun _ => .inr (by simp), fun _ => ?_⟩⟩
  apply (restoreInternal_spec owner t).mono
  intro r u hou
  cases hou with
  | verified mem off hs => exact .inl ⟨rfl, rfl⟩
  | retained r hf mem off => exact .inr ⟨hf, rfl⟩

theorem remove_any (address : ℕ) : (breakpointRemove address).wp (fun r t =>
    AnyRemoved s.breakpoints address r t.breakpoints) s := by
  simp only [breakpointRemove, wp_bind, wp_read]
  cases hfo : breakpointFind s.breakpoints address with
  | none => simp [AnyRemoved, hfo]
  | some i =>
    simp only [wp_bind, wp_ite, wp_modify, wp_pure, AnyRemoved, hfo]
    apply wp_lift
    have hoc : ((slotPart i).view s).slot.state ≠ .empty := (breakpointFind_some hfo).1
    apply (restoreOwned_any none hoc).mono
    intro r t ho
    rw [slotPart_put, setTemporary_setBreakpoint]
    refine ⟨fun ok => ⟨fun j hd => setBreakpoint_other hd _ _, .inl ⟨?_, ?_⟩⟩,
      fun hf => ⟨fun j hd => setBreakpoint_other hd _ _, .inr ⟨?_, ?_⟩⟩⟩
    · rw [ok]
      rfl
    · rcases ho with ⟨-, he⟩ | ⟨hf, -⟩
      · simp [setBreakpoint_self, Occupied, he]
      · exact absurd ok hf
    · exact (PatchResult.code_neg_iff r).mpr hf
    rcases ho with ⟨ok, -⟩ | ⟨-, hs⟩
    · exact absurd ok hf
    · rw [setBreakpoint_self]
      exact hs

theorem remove_even (address : ℕ) : Preserves EvenTable (breakpointRemove address) := by
  intro s he
  apply (remove_any address).mono
  intro result t hr i ho
  simp only [AnyRemoved] at hr
  split at hr
  · rw [hr.2] at ho ⊢
    exact he i ho
  next k hf =>
  obtain rfl | different := eq_or_ne i k
  · rcases hr.2 with ⟨-, hem⟩ | ⟨-, hs⟩
    · exact absurd ho hem
    · rw [hs]
      exact he i (breakpointFind_some hf).1
  · rw [hr.1 i different] at ho ⊢
    exact he i ho

theorem removeRearmEach_even : Preserves EvenTable (removeRearmEach list) := by
  induction list with
  | nil => exact .pure 0
  | cons rearm rest ih =>
    refine .bind (.read _) fun _ => ?_
    split
    · exact ih
    · exact .bind (remove_even _) fun _ => .bind ih fun _ => .pure _

theorem insertInternal_even (address size : ℕ) (temporary : Bool) :
    Preserves EvenTable (breakpointInsertInternal address size temporary) := by
  intro s he
  apply (insertInternal_inserted address size temporary).mono
  intro result t hi j ho
  rcases hi.entry ho with hs | hh
  · rw [hs] at ho ⊢
    exact he j ho
  · rw [hh]
    exact clearBit0_even address

theorem setTemporary_even (he : EvenTable s) : EvenTable (setTemporary i temporary s) := by
  intro j ho
  obtain rfl | different := eq_or_ne j i
  · rw [setTemporary, setBreakpoint_self] at ho ⊢
    exact he j ho
  · rw [setTemporary, setBreakpoint_other different] at ho ⊢
    exact he j ho

theorem rearmEach_even : Preserves EvenTable (rearmEach list) := by
  induction list with
  | nil => exact .pure 0
  | cons rearm rest ih =>
    refine .bind (.read _) fun _ => ?_
    split
    · exact .ite (.pure _) (.bind (.modify fun _ => setTemporary_even) fun _ => ih)
    · exact .bind (insertInternal_even _ _ _) fun _ => .ite (.pure _) ih

/-- With the earlier entries empty, a removal by an entry's own address finds the entry. -/
theorem find_first (hev : EvenTable s) {b rest : List Index}
    (hor : finRange maxBreakpoints = b ++ i :: rest)
    (he : ∀ j ∈ b, ¬Occupied (s.breakpoints j)) (ho : Occupied (s.breakpoints i)) :
    breakpointFind s.breakpoints (s.breakpoints i).patch.address = some i := by
  have hn : b.find? (fun j => decide (Occupied (s.breakpoints j) ∧
      (s.breakpoints j).patch.address = clearBit0 (s.breakpoints i).patch.address)) = none := by
    apply find?_eq_none.mpr
    intro j hm
    simp [he j hm]
  rw [breakpointFind, hor, find?_append, hn]
  simp [ho, clearBit0_of_even (hev i ho)]

/-- The sweep from `i` on, over a table whose earlier entries are empty. -/
theorem removeEach_empties (list : List Index) {before : List Index} {s : BreakpointState}
    (hor : finRange maxBreakpoints = before ++ list) (hev : EvenTable s)
    (he : ∀ j ∈ before, ¬Occupied (s.breakpoints j)) :
    (removeEach (fun b => Occupied b) list).wp (fun r t =>
      0 ≤ r → ∀ j, ¬Occupied (t.breakpoints j)) s := by
  induction list generalizing before s with
  | nil =>
    intro _ j
    exact he j (by simpa [hor] using mem_finRange j)
  | cons i rest ih =>
    have hne : finRange maxBreakpoints = (before ++ [i]) ++ rest := by simpa using hor
    simp only [removeEach, wp_bind, wp_read, wp_ite, wp_pure]
    refine ⟨fun hc => ?_, fun hu => ?_⟩
    · have ho : Occupied (s.breakpoints i) := of_decide_eq_true hc
      apply wp.mono (wp_and (remove_any (s.breakpoints i).patch.address)
        (remove_even (s.breakpoints i).patch.address s hev))
      rintro first t ⟨hr, he'⟩
      rw [AnyRemoved, find_first hev hor he ho] at hr
      rcases hr with ⟨hot, ⟨hz, hg⟩ | ⟨hn, -⟩⟩
      · have hcl : ∀ j ∈ before ++ [i], ¬Occupied (t.breakpoints j) := by
          intro j hm
          obtain rfl | different := eq_or_ne j i
          · exact hg
          · rw [hot j different]
            exact he j (by simpa [different] using hm)
        apply (ih hne he' hcl).mono
        intro l u hdo
        simpa [hz] using hdo
      · exact wp_of_forall t fun l u => by simp [hn]
    have hv : ¬Occupied (s.breakpoints i) := fun ho => hu (by simpa using ho)
    refine ih hne hev fun j hm => ?_
    rcases mem_append.mp hm with hea | hh
    · exact he j hea
    · rwa [mem_singleton.mp hh]

theorem removeAll_empties (he : EvenTable s) :
    breakpointRemoveAll.wp (fun r t => 0 ≤ r → ∀ j, ¬Occupied (t.breakpoints j)) s :=
  removeEach_empties _ (nil_append _).symm he (by simp)

end Even
end VitaDebugger.RecoveryRecords
