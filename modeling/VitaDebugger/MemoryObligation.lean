import VitaDebugger.MemoryWrite

/-! The obligation an interrupted `M` write retains. `Rearming` relates the table
to the breakpoints that must end installed: those not listed for re-arming stay
installed throughout, the listed ones may be in any state of their slot. `Owes`
adds the transaction, whose saved bytes are the ones the write replaced. -/

namespace VitaDebugger.MemoryObligation
open AtomicProgram Prog SpanMemory BreakpointPatch BreakpointTable BreakpointGuards List Function
open MemoryTransaction MemoryWrite

def installedSet (breakpoints : Index → Breakpoint) : Set Rearm :=
  { r | ∃ i, (breakpoints i).patch.state = .installed ∧ describe (breakpoints i) = r }

def Listed (rearm : List Rearm) (address : ℕ) : Prop := address ∈ rearm.map Rearm.address

structure Rearming (installed : Set Rearm) (rearm : List Rearm)
    (breakpoints : Index → Breakpoint) : Prop where
  listed : ∀ r ∈ rearm, r ∈ installed
  even : ∀ r ∈ rearm, r.address % 2 = 0
  unique : ∀ r ∈ installed, ∀ r' ∈ installed, r.address = r'.address → r = r'
  distinct : (rearm.map Rearm.address).Nodup
  kept : ∀ i, Occupied (breakpoints i) → ¬Listed rearm (breakpoints i).patch.address →
    (breakpoints i).patch.state = .installed ∧ describe (breakpoints i) ∈ installed
  sized : ∀ i, Occupied (breakpoints i) → ∀ r ∈ rearm,
    r.address = (breakpoints i).patch.address → (breakpoints i).patch.size = r.size
  present : ∀ r ∈ installed, Listed rearm r.address ∨ r ∈ installedSet breakpoints

variable {i : Index} {result : ℤ} {r : Rearm}

section Rearming
variable {installed : Set Rearm} {rearm : List Rearm} {before a : Index → Breakpoint}

section
variable (owed : Rearming installed rearm before)
include owed

/-- Entries may change only where a listed address was or will be. -/
theorem Rearming.evolve (he : ∀ j, (Occupied (a j) ∨ Occupied (before j) → a j = before j) ∨
      ((Occupied (before j) → Listed rearm (before j).patch.address) ∧
        (Occupied (a j) → Listed rearm (a j).patch.address ∧ ∀ r ∈ rearm,
          r.address = (a j).patch.address → (a j).patch.size = r.size))) :
    Rearming installed rearm a where
  __ := owed
  kept j ho hu := by
    rcases he j with hs | ⟨-, now⟩
    · have heq := hs (.inl ho)
      rw [heq] at ho hu ⊢
      exact owed.kept j ho hu
    · exact (hu (now ho).1).elim
  sized j ho := by
    rcases he j with hs | ⟨-, now⟩
    · have heq := hs (.inl ho)
      rw [heq] at ho ⊢
      exact owed.sized j ho
    · exact (now ho).2
  present r hm := by
    refine (owed.present r hm).elim .inl ?_
    rintro ⟨i, hst, rfl⟩
    have ho : Occupied (before i) := by simp [Occupied, hst]
    rcases he i with hs | ⟨hl, -⟩
    · exact .inr ⟨i, by rwa [hs (.inr ho)], by rw [hs (.inr ho)]⟩
    · exact .inl (hl ho)

theorem Rearming.sameOccupied (hs : SameOccupied before a) : Rearming installed rearm a :=
  owed.evolve fun j => .inl (hs j)

theorem Rearming.removedAt (ho : Occupied (before i))
    (hl : Listed rearm (before i).patch.address) (hr : RemovedAt before i result a) :
    Rearming installed rearm a := by
  refine owed.evolve fun j => ?_
  obtain rfl | different := eq_or_ne j i
  · refine .inr ⟨fun _ => hl, ?_⟩
    rcases hr with ⟨-, rfl⟩ | ⟨-, rfl⟩
    · simp [not_occupied_cleared]
    · simpa [pend, PatchSlot.size] using fun _ => ⟨hl, owed.sized j ho⟩
  · refine .inl fun _ => ?_
    rcases hr with ⟨-, rfl⟩ | ⟨-, rfl⟩ <;> exact update_of_ne different ..

theorem Rearming.eq_of_address {r' : Rearm}
    (hf : r ∈ rearm) (hs : r' ∈ rearm) (hsa : r.address = r'.address) : r = r' :=
  owed.unique r (owed.listed r hf) r' (owed.listed r' hs) hsa

theorem Rearming.placed (member : r ∈ rearm)
    (hf : ¬Occupied (before i)) {b : Breakpoint} (hh : b.patch.address = r.address)
    (hw : b.patch.size = r.size) : Rearming installed rearm (update before i b) := by
  refine owed.evolve fun j => ?_
  obtain rfl | different := eq_or_ne j i
  · refine .inr ⟨fun h => (hf h).elim, fun _ => ?_⟩
    rw [update_self]
    refine ⟨mem_map.mpr ⟨r, member, hh.symm⟩, fun r' hm' hs => ?_⟩
    rw [owed.eq_of_address hm' member (hs.trans hh), hw]
  · exact .inl fun _ => update_of_ne different ..

theorem Rearming.flagged (ho : Occupied (before i))
    (hl : Listed rearm (before i).patch.address) (temporary : Bool) :
    Rearming installed rearm (update before i { before i with temporary }) := by
  refine owed.evolve fun j => ?_
  obtain rfl | different := eq_or_ne j i
  · refine .inr ⟨fun _ => hl, fun _ => ?_⟩
    simpa using ⟨hl, owed.sized j ho⟩
  · exact .inl fun _ => update_of_ne different ..

end

theorem occupied_of_pending (b : Breakpoint)
    (hp : decide (b.patch.state = .restorePending)) : Occupied b := by
  simp [Occupied, of_decide_eq_true hp]

/-- The bulk retry of pending slots touches only listed entries. -/
theorem Rearming.sweptPending (how : Rearming installed rearm before) {list : List Index}
    (hsw : Swept (fun b => b.patch.state = .restorePending) list before result a) :
    Rearming installed rearm a := by
  refine how.evolve fun j => ?_
  rcases hsw.entry j with hsa | ⟨-, hp, hc⟩
  · exact .inl fun _ => hsa
  have ho := occupied_of_pending _ hp
  have hl : Listed rearm (before j).patch.address := by
    by_contra hu
    have hs := (how.kept j ho hu).1
    simp [hs] at hp
  refine .inr ⟨fun _ => hl, fun hpr => ?_⟩
  rcases hc with hcl | hk
  · rw [hcl] at hpr
    exact (not_occupied_cleared hpr).elim
  · rw [hk]
    exact ⟨hl, how.sized j ho⟩

theorem Rearming.discharge (ho : Rearming installed rearm before)
    (hal : ∀ i j, Occupied (before i) → Occupied (before j) →
      (before i).patch.address = (before j).patch.address → i = j)
    (ha : ∀ r ∈ rearm, r ∈ installedSet before) : Rearming installed [] before where
  listed := by simp
  even := by simp
  unique := ho.unique
  distinct := by simp
  kept i hoc _ := by
    by_cases hl : Listed rearm (before i).patch.address
    · obtain ⟨r, hm, hh⟩ := mem_map.mp hl
      obtain ⟨j, hst, hd⟩ := ha r hm
      have hs : i = j := by
        apply hal i j hoc (by simp [Occupied, hst])
        rw [← hh, ← hd]
        rfl
      subst hs
      exact ⟨hst, hd ▸ ho.listed r hm⟩
    · exact ho.kept i hoc hl
  sized := by simp
  present r hm := by
    refine (ho.present r hm).elim (fun hl => ?_) .inr
    obtain ⟨r', hm', hs⟩ := mem_map.mp hl
    rw [← ho.unique r' (ho.listed r' hm') r hm hs]
    exact .inr (ha r' hm')

end Rearming

section Loops
variable {base : Memory} {installed : Set Rearm} {rearm : List Rearm} {s : BreakpointState}

theorem find_listed {bs : Index → Breakpoint} (hev : r.address % 2 = 0)
    (hf : breakpointFind bs r.address = some i) :
    Occupied (bs i) ∧ (bs i).patch.address = r.address := by
  have he := breakpointFind_some hf
  rwa [clearBit0_of_even hev] at he

/-- No entry becomes occupied and none moves. -/
def Shrinks (before after : Index → Breakpoint) : Prop :=
  ∀ j, Occupied (after j) → Occupied (before j) ∧ (after j).patch.address = (before j).patch.address

theorem removedAt_shrinks {b after : Index → Breakpoint} (ho : Occupied (b i))
    (hr : RemovedAt b i result after) : Shrinks b after := by
  intro j hp
  obtain rfl | different := eq_or_ne j i
  · rcases hr with ⟨-, rfl⟩ | ⟨-, rfl⟩
    · simp [not_occupied_cleared] at hp
    · simp [ho, pend]
  · rcases hr with ⟨-, rfl⟩ | ⟨-, rfl⟩ <;> simp_all

theorem removedAt_zero {b after : Index → Breakpoint} (hr : RemovedAt b i 0 after) :
    ¬Occupied (after i) := by
  rcases hr with ⟨-, rfl⟩ | ⟨hn, -⟩
  · simp [not_occupied_cleared]
  · simp at hn

/-- Removal of listed entries; a zero result leaves none of them occupied. -/
theorem removeRearmEach_spec {l : List Rearm} (sub : ∀ r ∈ l, r ∈ rearm)
    (hg : Guards base s) (how : Rearming installed rearm s.breakpoints) :
    (removeRearmEach l).wp (fun result t => Guards base t ∧
      Rearming installed rearm t.breakpoints ∧ (result = 0 ∨ result = -1) ∧
      Shrinks s.breakpoints t.breakpoints ∧
      (result = 0 → ∀ i, Occupied (t.breakpoints i) →
        ¬Listed l (t.breakpoints i).patch.address)) s := by
  induction l generalizing s with
  | nil => exact ⟨hg, how, .inl rfl, fun i h => ⟨h, rfl⟩, by simp [Listed]⟩
  | cons r rest ih =>
    have he := how.even r (sub r (.head rest))
    have hla : ∀ r ∈ rest, r ∈ rearm := fun r' hme => sub r' (.tail r hme)
    simp only [removeRearmEach, wp_bind, wp_read]
    cases hf : breakpointFind s.breakpoints r.address with
    | none =>
      apply (ih hla hg how).mono
      rintro result t ⟨hg', ho', hc, hs, hgo⟩
      refine ⟨hg', ho', hc, hs, fun hz i ho hl => ?_⟩
      rcases mem_cons.mp hl with hh | hl
      · obtain ⟨hb, hsa⟩ := hs i ho
        apply breakpointFind_none hf i hb
        rw [clearBit0_of_even he, ← hsa, hh]
      · exact hgo hz i ho hl
    | some i =>
      obtain ⟨ho, hh⟩ := find_listed he hf
      have hl : Listed rearm (s.breakpoints i).patch.address :=
        mem_map.mpr ⟨r, sub r (.head rest), hh.symm⟩
      simp only [wp_bind]
      apply (breakpointRemove_spec hg _).mono
      rintro first t ⟨hg', hr⟩
      rw [Removed, hg.find_self ho] at hr
      apply (ih hla hg' (how.removedAt ho hl hr)).mono
      rintro others u ⟨hg'', ho'', hc, hs, hgo⟩
      have hsh := removedAt_shrinks ho hr
      refine ⟨hg'', ho'', ?_, fun j hp => ?_, fun hz j hp hw => ?_⟩
      · split
        · exact .inr rfl
        · exact hc
      · obtain ⟨hm, hsa⟩ := hs j hp
        obtain ⟨first, hs'⟩ := hsh j hm
        exact ⟨first, hsa.trans hs'⟩
      have hfz : first = 0 := by
        rcases hr with ⟨hz, -⟩ | ⟨hn, -⟩
        · exact hz
        · simp [hn] at hz
      subst hfz
      obtain ⟨hm, hsa⟩ := hs j hp
      obtain ⟨first, hs'⟩ := hsh j hm
      rcases mem_cons.mp hw with ht | hw
      · have heq : j = i := hg.address_injective first ho (by rw [← hs', ← hsa, ht, hh])
        exact removedAt_zero hr (heq ▸ hm)
      · exact hgo (by simpa using hz) j hp hw

/-- What the re-arming loop over `list` leaves. -/
structure Rearmed (list : List Rearm) (before : Index → Breakpoint) (result : ℤ)
    (after : Index → Breakpoint) : Prop where
  code : result = 0 ∨ result = -1
  others : ∀ i, Occupied (before i) → ¬Listed list (before i).patch.address → after i = before i
  armed : result = 0 → ∀ r ∈ list, r ∈ installedSet after
  attempted : result ≠ 0 → list ≠ []

theorem Rearmed.cons {rest : List Rearm} {b m after : Index → Breakpoint}
    (distinct : ((r :: rest).map Rearm.address).Nodup) (state : (m i).patch.state = .installed)
    (described : describe (m i) = r)
    (others : ∀ j, Occupied (b j) → (b j).patch.address ≠ r.address →
      m j = b j) (rearmed : Rearmed rest m result after) :
    Rearmed (r :: rest) b result after where
  code := rearmed.code
  others j ho unlisted := by
    simp only [Listed, map_cons, mem_cons, not_or] at unlisted
    have same := others j ho unlisted.1
    rw [← same] at ho unlisted ⊢
    exact rearmed.others j ho unlisted.2
  armed hz r' member := by
    rcases mem_cons.mp member with rfl | member
    · have hf : ¬Listed rest (m i).patch.address := by
        have hh : (m i).patch.address = r'.address := congrArg Rearm.address described
        rw [hh]
        exact (nodup_cons.mp distinct).1
      have same := rearmed.others i (by simp [Occupied, state]) hf
      exact ⟨i, by rwa [same], by rwa [same]⟩
    · exact rearmed.armed hz r' member
  attempted _ := cons_ne_nil r rest

theorem rearmEach_spec {l : List Rearm} (sub : ∀ r ∈ l, r ∈ rearm)
    (hd : (l.map Rearm.address).Nodup) (hg : Guards base s)
    (how : Rearming installed rearm s.breakpoints) :
    (rearmEach l).wp (fun result t => Guards base t ∧ Rearming installed rearm t.breakpoints ∧
      Rearmed l s.breakpoints result t.breakpoints) s := by
  induction l generalizing s with
  | nil => exact ⟨hg, how, .inl rfl, fun _ _ _ => rfl, by simp, by simp⟩
  | cons r rest ih =>
    have hm := sub r (.head rest)
    have hev := how.even r hm
    have hl : ∀ r ∈ rest, r ∈ rearm := fun r' hm' => sub r' (.tail r hm')
    have hd' := (nodup_cons.mp hd).2
    simp only [rearmEach, wp_bind, wp_read]
    cases hf : breakpointFind s.breakpoints r.address with
    | some i =>
      obtain ⟨ho, hh⟩ := find_listed hev hf
      rw [wp_ite]
      refine ⟨fun _ => ⟨hg, how, .inr rfl, fun _ _ _ => rfl, by simp, by simp⟩, fun hs => ?_⟩
      simp only [wp_bind, wp_modify]
      have hli : Listed rearm (s.breakpoints i).patch.address := mem_map.mpr ⟨r, hm, hh.symm⟩
      apply wp.mono (ih hl hd' (hg.setTemporary ho r.temporary) (how.flagged ho hli r.temporary))
      rintro result t ⟨hg', ho', hr⟩
      refine ⟨hg', ho', .cons (i := i) hd ?_ ?_ ?_ hr⟩
      · rw [setTemporary, setBreakpoint_self]
        exact not_not.mp hs
      · rw [setTemporary, setBreakpoint_self]
        simp only [describe, hh, how.sized i ho r hm hh.symm]
      · intro j _ he
        refine setBreakpoint_other (fun hsa => he ?_) _ _
        rw [hsa, hh]
    | none =>
      simp only [wp_bind]
      apply (insertInternal_spec hg r.address r.size r.temporary).mono
      rintro first ⟨mem', middle⟩ ⟨hg', hi⟩
      cases hi with
      | refused hfa hsa =>
        simp only [hfa, ↓reduceIte, wp_pure]
        exact ⟨hg', how.sameOccupied hsa, .inr rfl, fun j ho _ => hsa j (.inr ho), by simp, by simp⟩
      | present i hs hh hw =>
        have ho : Occupied (s.breakpoints i) := by simp [Occupied, hs]
        exact (breakpointFind_none hf i ho hh).elim
      | placed i b hfr hh hw hfl hs =>
        rw [clearBit0_of_even hev] at hh
        have hot : ∀ j, Occupied (s.breakpoints j) →
            update s.breakpoints i b j = s.breakpoints j := by
          intro j ho
          have hdi : j ≠ i := fun hsa => hfr (hsa ▸ ho)
          exact update_of_ne hdi ..
        have ho' := how.placed hm hfr hh hw
        rcases hs with ⟨rfl, hs⟩ | ⟨hn, -⟩
        · apply (ih hl hd' hg' ho').mono
          rintro result t ⟨hg'', ho'', hr⟩
          refine ⟨hg'', ho'', .cons (i := i) hd ?_ ?_ ?_ hr⟩
          · simpa using hs
          · simp [describe, hh, hw, hfl]
          · exact fun j ho _ => hot j ho
        · simp only [hn, ↓reduceIte, wp_pure]
          exact ⟨hg', ho', .inr rfl, fun j ho _ => hot j ho, by simp, by simp⟩

end Loops

/-- How the guarded memory relates to the one the write started from: equal to
it while no transaction is open, otherwise equal off a span whose original bytes
the transaction holds and which no unlisted breakpoint meets. -/
def Recovery (base current : Memory) (installed : Set Rearm) (w : WriteState) : Prop :=
  (¬memoryTransactionIsPending w.transaction ∧ current = base) ∨
    (Holds w.transaction (load base w.transaction.address w.transaction.size) ∧
      AgreeOff w.transaction.address w.transaction.size base current ∧
      ∀ r ∈ installed, ¬Listed w.rearm r.address → ∀ a, InSpan r.address r.size a →
        ¬InSpan w.transaction.address w.transaction.size a)

structure Owes (base current : Memory) (installed : Set Rearm) (s : LiveState) : Prop where
  guards : Guards current s.target
  table : Rearming installed s.write.rearm s.target.breakpoints
  recovery : Recovery base current installed s.write

/-- Nothing pending, every entry installed, and exactly the wanted ones. -/
structure Settled (base : Memory) (installed : Set Rearm) (s : LiveState) : Prop where
  guards : Guards base s.target
  table : Rearming installed [] s.target.breakpoints
  idle : ¬memoryWriteHasPending s.write

/-- No listed entry is left in the table. -/
def Lifted (s : LiveState) : Prop := ∀ i, Occupied (s.target.breakpoints i) →
  ¬Listed s.write.rearm (s.target.breakpoints i).patch.address

/-- The transaction holds the bytes of its span. -/
def Saved (base : Memory) (s : LiveState) : Prop :=
  Holds s.write.transaction (load base s.write.transaction.address s.write.transaction.size)

section Live
variable {base c : Memory} {installed : Set Rearm} {s : LiveState}

theorem Settled.installedSet_eq (hs : Settled base installed s) :
    installedSet s.target.breakpoints = installed := by
  ext r
  constructor
  · rintro ⟨i, hst, rfl⟩
    exact (hs.table.kept i (by simp [Occupied, hst]) (by simp [Listed])).2
  · exact fun hm => (hs.table.present r hm).resolve_left (by simp [Listed])

section
variable (owes : Owes base c installed s)
include owes

theorem Owes.settled (hi : ¬memoryWriteHasPending s.write) : Settled base installed s := by
  obtain ⟨he, hc⟩ := not_or.mp hi
  have hr : s.write.rearm = [] := not_not.mp he
  rcases owes.recovery with ⟨-, rfl⟩ | ⟨hh, -⟩
  · exact ⟨owes.guards, hr ▸ owes.table, hi⟩
  · exact (hc hh.active).elim

theorem Owes.guards_base
    (hc : ¬memoryTransactionIsPending s.write.transaction) : Guards base s.target := by
  rcases owes.recovery with ⟨-, rfl⟩ | ⟨hh, -⟩
  · exact owes.guards
  · exact (hc hh.active).elim

/-- A zero re-arming with a closed transaction settles the write. -/
theorem Owes.finish (hc : ¬memoryTransactionIsPending s.write.transaction)
    (har : ∀ r ∈ s.write.rearm, r ∈ installedSet s.target.breakpoints) :
    Settled base installed (setRearm [] s) := by
  have ha : ∀ i j, Occupied (s.target.breakpoints i) → Occupied (s.target.breakpoints j) →
      (s.target.breakpoints i).patch.address = (s.target.breakpoints j).patch.address → i = j :=
    fun i j hf hs => owes.guards.address_injective hf hs
  exact ⟨owes.guards_base hc, owes.table.discharge ha har, by simp [setRearm,
    memoryWriteHasPending, hc]⟩

theorem removeRearm_spec :
    memoryWriteRemoveRearmBreakpoints.wp (fun result t => Owes base c installed t ∧
      t.write = s.write ∧ (result = 0 ∨ result = -1) ∧ (result = 0 → Lifted t)) s := by
  simp only [memoryWriteRemoveRearmBreakpoints, wp_bind, wp_read]
  apply wp_lift
  apply wp.mono (removeRearmEach_spec (fun _ h => h) owes.guards owes.table)
  rintro result t ⟨hg, ht, hc, -, hgo⟩
  exact ⟨⟨hg, ht, owes.recovery⟩, rfl, hc, hgo⟩

theorem rearm_spec : memoryWriteRearmBreakpoints.wp (fun result t => Owes base c installed t ∧
      t.write = s.write ∧
      Rearmed s.write.rearm s.target.breakpoints result t.target.breakpoints) s := by
  simp only [memoryWriteRearmBreakpoints, wp_bind, wp_read]
  apply wp_lift
  apply wp.mono (rearmEach_spec (fun _ h => h) owes.table.distinct owes.guards owes.table)
  rintro result t ⟨hg, ht, hr⟩
  exact ⟨⟨hg, ht, owes.recovery⟩, rfl, hr⟩

theorem Owes.apart (hh : Saved base s) (hg : Lifted s) :
    AgreeOff s.write.transaction.address s.write.transaction.size base c ∧
      Apart s.target s.write.transaction.address s.write.transaction.size := by
  rcases owes.recovery with ⟨hc, -⟩ | ⟨-, off, hcl⟩
  · exact (hc hh.active).elim
  · refine ⟨off, fun i ho => ?_⟩
    have hm := (owes.table.kept i ho (hg i ho)).2
    exact hcl (describe (s.target.breakpoints i)) hm (hg i ho)

theorem Owes.rollback (hh : Saved base s) (hg : Lifted s)
    {result : TransactionResult} {t : TransactionTarget}
    (ho : RollbackOutcome (transactionPart.view s)
      (load base s.write.transaction.address s.write.transaction.size) result t) :
    ∃ c', Owes base c' installed (transactionPart.put s t) ∧
      ((result = .writeFailedRestored ∧ ¬memoryTransactionIsPending t.transaction) ∨
        (result = .restorePending ∧ memoryTransactionIsPending t.transaction)) := by
  obtain ⟨off, apart⟩ := owes.apart hh hg
  cases ho with
  | restored mem' changed same =>
    have whole := splice_eq_of_load off same
    refine ⟨base, ⟨?_, owes.table, .inl ⟨?_, rfl⟩⟩, .inl ⟨rfl, ?_⟩⟩
    · rw [← whole]
      exact owes.guards.scribble apart changed
    · exact fun pending => pending rfl
    · exact fun pending => pending rfl
  | pending mem' changed =>
    refine ⟨_, ⟨owes.guards.scribble apart changed, owes.table, .inr ⟨hh, ?_, ?_⟩⟩,
      .inr ⟨rfl, hh.active⟩⟩
    · exact off.trans (splice_agreeOff _ _ _ _)
    · rcases owes.recovery with ⟨closed, -⟩ | ⟨-, -, clear⟩
      · exact (closed hh.active).elim
      · exact clear

theorem restoreTransaction_spec (hg : Lifted s) :
    restoreTransaction.wp (fun restored t => ∃ c', Owes base c' installed t ∧
      t.write.rearm = s.write.rearm ∧
      (restored ↔ ¬memoryTransactionIsPending t.write.transaction)) s := by
  simp only [restoreTransaction, wp_bind, wp_read]
  rw [wp_ite]
  refine ⟨fun hp => ?_, fun hc => ⟨c, owes, rfl, by simpa using hc⟩⟩
  rw [wp_bind]
  have hh : Saved base s := owes.recovery.elim (fun h => (h.1 hp).elim) fun h => h.1
  apply wp_lift
  apply (restore_spec (transactionPart.view s) hh).mono
  intro result t ho
  obtain ⟨c', ho', ⟨rfl, hc⟩ | ⟨rfl, hp'⟩⟩ := owes.rollback hh hg ho
  · exact ⟨c', ho', rfl, fun _ => hc, fun _ => by simp⟩
  · exact ⟨c', ho', rfl, fun h => by simp at h, fun hc => (hc hp').elim⟩

/-- A retry either settles the write or keeps the whole obligation. -/
theorem restorePending_spec :
    memoryWriteRestorePending.wp (fun result t => (result = 0 ∧ Settled base installed t) ∨
      (result = -1 ∧ (∃ c', Owes base c' installed t) ∧
        memoryWriteHasPending t.write)) s := by
  simp only [memoryWriteRestorePending, wp_bind, wp_read]
  rw [wp_ite]
  refine ⟨fun hi => .inl ⟨rfl, owes.settled hi⟩, fun hp => ?_⟩
  have hp := not_not.mp hp
  rw [wp_bind]
  apply (removeRearm_spec owes).mono
  rintro removed t ⟨ho, hsa, hco, hg⟩
  rw [wp_ite]
  refine ⟨fun _ => .inr ⟨rfl, ⟨_, ho⟩, hsa ▸ hp⟩, fun ok => ?_⟩
  rw [wp_bind]
  apply (restoreTransaction_spec ho (hg (by omega))).mono
  rintro restored u ⟨current₂, how, -, hc⟩
  rw [wp_ite]
  refine ⟨fun hf => .inr ⟨rfl, ⟨_, how⟩, .inr ?_⟩, fun restored => ?_⟩
  · by_contra hi
    simp [hc.mpr hi] at hf
  rw [wp_bind]
  apply (rearm_spec how).mono
  rintro rearmed v ⟨hoe, hs, hd⟩
  rw [wp_ite]
  refine ⟨fun hf => .inr ⟨rfl, ⟨_, hoe⟩, .inl ?_⟩, fun ok => ?_⟩
  · rw [hs]
    exact hd.attempted (by omega)
  simp only [wp_bind, wp_modify, wp_pure, true_and]
  have ha := hd.armed (by have := hd.code; omega)
  rw [← hs] at hc ha
  exact .inl (hoe.finish (hc.mp (by simpa using restored)) ha)

end

end Live
end VitaDebugger.MemoryObligation
