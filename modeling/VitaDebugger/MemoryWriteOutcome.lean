import VitaDebugger.MemoryObligation

/-! The three results of an `M` write over live breakpoints. Zero means written
and re-armed, `-1` means nothing changed, and `-2` leaves either nothing changed
or an obligation that every later retry keeps until one of them discharges it. -/

namespace VitaDebugger.MemoryWriteOutcome
open AtomicProgram Prog SpanMemory BreakpointPatch BreakpointTable BreakpointGuards List
open MemoryTransaction MemoryWrite MemoryObligation RspHex

section Outcome
variable {base current : Memory} {installed : Set Rearm} {s : LiveState}

theorem settled_of_sound (hs : TableSound s.target) (ha : ∀ i, Occupied (s.target.breakpoints i) →
      (s.target.breakpoints i).patch.state = .installed)
    (hi : ¬memoryWriteHasPending s.write) :
    Settled (logicalMemory s.target) (installedSet s.target.breakpoints) s := by
  have hg := hs.guards
  refine ⟨hg, ⟨by simp, by simp, ?_, by simp, ?_, by simp, ?_⟩, hi⟩
  · rintro r ⟨i, hst, rfl⟩ r' ⟨j, hs', rfl⟩ hsa
    have he : i = j := hg.address_injective (by simp [Occupied, hst]) (by simp [Occupied, hs']) hsa
    rw [he]
  · exact fun i ho _ => ⟨ha i ho, i, ha i ho, rfl⟩
  · exact fun r hm => .inr hm

/-- Unlisted breakpoints keep clear of the range. -/
def Clear (installed : Set Rearm) (rearm : List Rearm) (address size : ℕ) : Prop :=
  ∀ r ∈ installed, ¬Listed rearm r.address → ∀ a, InSpan r.address r.size a → ¬InSpan address size a

theorem mem_overlapping {bs : Index → Breakpoint} {address size : ℕ} {r : Rearm} :
    r ∈ overlapping bs address size ↔ ∃ i, Occupied (bs i) ∧
      rangesOverlap address size (bs i).patch.address (bs i).patch.size ∧
      describe (bs i) = r := by
  simp [overlapping, and_assoc]

theorem settled_capture (hs : Settled base installed s) (address size : ℕ) :
    Owes base base installed (setRearm (overlapping s.target.breakpoints address size) s) ∧
      Clear installed (overlapping s.target.breakpoints address size) address size := by
  have ht := hs.table
  have hg := hs.guards
  have hu : ∀ a, ¬Listed [] a := by simp [Listed]
  have hd : ((overlapping s.target.breakpoints address size).map Rearm.address).Nodup := by
    rw [overlapping, map_map]
    refine List.Nodup.map_on ?_ ((nodup_finRange _).filter _)
    intro i hf j hse hsa
    simp only [mem_filter, decide_eq_true_eq] at hf hse
    exact hg.address_injective hf.2.1 hse.2.1 hsa
  refine ⟨⟨hg, ⟨?_, ?_, ht.unique, hd, ?_, ?_, ?_⟩, .inl ⟨?_, rfl⟩⟩, ?_⟩
  · intro r hm
    obtain ⟨i, ho, -, rfl⟩ := mem_overlapping.mp hm
    exact (ht.kept i ho (hu _)).2
  · intro r hm
    obtain ⟨i, ho, -, rfl⟩ := mem_overlapping.mp hm
    exact (hg.wellFormed i ho).even
  · exact fun i ho _ => ht.kept i ho (hu _)
  · intro i ho r hm hsa
    obtain ⟨j, ho', -, rfl⟩ := mem_overlapping.mp hm
    have he : j = i := hg.address_injective ho' ho hsa
    rw [← he]
    rfl
  · exact fun r hm => .inr ((ht.present r hm).resolve_left (hu _))
  · exact (not_or.mp hs.idle).2
  intro r hm ha a hi
  obtain ⟨i, hst, rfl⟩ := (ht.present r hm).resolve_left (hu _)
  have ho : Occupied (s.target.breakpoints i) := by simp [Occupied, hst]
  refine apart_of_not_rangesOverlap (fun hme => ha ?_) a hi
  exact mem_map.mpr ⟨_, mem_overlapping.mpr ⟨i, ho, hme, rfl⟩, rfl⟩

/-- An obligation that a later retry can discharge. -/
def Retained (base : Memory) (installed : Set Rearm) (s : LiveState) : Prop :=
  (∃ current, Owes base current installed s) ∧ memoryWriteHasPending s.write

/-- The bytes a write of `size` from the text `data` stands for. -/
def Encodes (data : Option Bytes) (size : ℕ) (bytes : Bytes) : Prop :=
  bytes.length = size ∧
    (size ≠ 0 → decodeHexBytes size ((data.getD []).take (size * 2)) = some bytes)

inductive WriteOutcome (base : Memory) (installed : Set Rearm) (address : ℕ)
    (data : Option Bytes) (size : ℕ) : ℤ → LiveState → Prop
  | written {t : LiveState} (bytes : Bytes) (encodes : Encodes data size bytes)
      (settled : Settled (store base address bytes) installed t) :
      WriteOutcome base installed address data size 0 t
  | unchanged {result : ℤ} {t : LiveState} (code : result = -1 ∨ result = -2)
      (settled : Settled base installed t) : WriteOutcome base installed address data size result t
  | retained {t : LiveState} (retained : Retained base installed t) :
      WriteOutcome base installed address data size (-2) t

variable {address size : ℕ} {data : Option Bytes}

theorem reserve_spec (hs : Settled base installed s) (c : ℕ) :
    (memoryWriteStorageReserve c).wp (fun _ t => Settled base installed t) s := by
  have hk : ∀ storage transaction, ¬memoryTransactionIsPending transaction →
      Settled base installed { s with write := { s.write with storage, transaction } } :=
    fun storage transaction hi => ⟨hs.guards, hs.table, not_or.mpr ⟨(not_or.mp hs.idle).1, hi⟩⟩
  simp only [memoryWriteStorageReserve, wp_bind, wp_read, wp_ite, wp_pure, wp_ask, wp_modify]
  refine ⟨fun _ => hs, fun _ => ⟨fun _ => hs, fun _ => ⟨fun _ => hs, fun _ =>
    ⟨fun _ => hs, fun _ uid => ⟨fun _ => hs, fun _ block => ⟨fun _ => hs,
      fun _ freed => ⟨fun _ => hs, fun _ => hk _ _ ?_⟩⟩⟩⟩⟩⟩⟩
  simp [memoryTransactionIsPending, memoryTransactionInit]

theorem abandon_spec (ho : Owes base current installed s) :
    abandonWrite.wp (WriteOutcome base installed address data size) s := by
  simp only [abandonWrite, wp_bind, wp_pure]
  apply (restorePending_spec ho).mono
  rintro result t (⟨rfl, hs⟩ | ⟨rfl, ho', hp⟩)
  · exact .unchanged (.inl rfl) hs
  · exact .retained ⟨ho', hp⟩

theorem rearm_closed_spec (ho : Owes base current installed s)
    (hc : ¬memoryTransactionIsPending s.write.transaction) :
    memoryWriteRearmBreakpoints.wp (fun r t =>
      (r = 0 ∧ Settled base installed (setRearm [] t)) ∨
      (r = -1 ∧ Retained base installed t)) s := by
  apply (rearm_spec ho).mono
  rintro r t ⟨ho', hs, hd⟩
  rcases hd.code with rfl | rfl
  · refine .inl ⟨rfl, ho'.finish (hs ▸ hc) ?_⟩
    rw [hs]
    exact hd.armed rfl
  · refine .inr ⟨rfl, ⟨_, ho'⟩, .inl ?_⟩
    rw [hs]
    exact hd.attempted (by simp)

/-- The state after a successful preparation, with the range still untouched. -/
structure Prepared (base : Memory) (installed : Set Rearm) (address size : ℕ) (s : LiveState) :
    Prop where
  owes : Owes base base installed s
  start : s.write.transaction.address = address
  length : s.write.transaction.size = size
  state : s.write.transaction.state = .prepared
  holds : Holds s.write.transaction
    (load base s.write.transaction.address s.write.transaction.size)
  gone : ∀ i, Occupied (s.target.breakpoints i) →
    ¬Listed s.write.rearm (s.target.breakpoints i).patch.address

theorem Prepared.applied (hp : Prepared base installed address size s)
    {bs : Bytes} (hl : bs.length = size) {mem' : Memory}
    (off : AgreeOff s.write.transaction.address s.write.transaction.size s.target.mem mem')
    (hs : load mem' s.write.transaction.address s.write.transaction.size = bs) :
    Owes base (store base address bs) installed
      (transactionPart.put s ⟨{ s.write.transaction with state := .applied }, mem'⟩) := by
  have hh := hp.holds
  obtain ⟨-, ha⟩ := hp.owes.apart hh hp.gone
  have hw : s.write.transaction.size = bs.length := hp.length.trans hl.symm
  have hg := hp.owes.guards.scribble ha off
  rw [hw] at hg hs
  rw [splice_eq_store hs, hp.start] at hg
  refine ⟨hg, hp.owes.table, .inr ⟨{ hh with active := by simp [transactionPart] }, ?_, ?_⟩⟩
  · change AgreeOff s.write.transaction.address s.write.transaction.size base _
    rw [hw, hp.start]
    exact store_agreeOff base address bs
  · rcases hp.owes.recovery with ⟨hc, -⟩ | ⟨-, -, hcl⟩
    · exact (hc hh.active).elim
    · exact hcl

/-- Committing drops the saved bytes, so what is guarded becomes the base. -/
theorem commit_owes (ho : Owes base current installed s) : Owes current current installed
      (transactionPart.put s ⟨s.write.transaction.clear, s.target.mem⟩) :=
  ⟨ho.guards, ho.table, .inl ⟨fun hp => hp rfl, rfl⟩⟩

theorem commit_spec {Q : TransactionResult → LiveState → Prop}
    (hs : s.write.transaction.state = .applied)
    (hd : Q .ok (transactionPart.put s ⟨s.write.transaction.clear, s.target.mem⟩)) :
    (memoryTransactionCommit.lift transactionPart).wp Q s := by
  apply wp_lift
  simpa [memoryTransactionCommit, clearTransaction, transactionPart, hs] using hd

theorem applyDecoded_spec (hp : Prepared base installed address size s)
    {bs : Bytes} (he : Encodes data size bs) :
    (applyDecoded bs).wp (WriteOutcome base installed address data size) s := by
  simp only [applyDecoded, wp_bind]
  apply wp_lift
  have width : bs.length = s.write.transaction.size := he.1.trans hp.length.symm
  apply (apply_spec (transactionPart.view s) hp.holds hp.state width).mono
  intro rs t outcome
  cases outcome with
  | applied mem' off same =>
    have owes := hp.applied he.1 off same
    simp only [ne_eq, not_true, ↓reduceIte, wp_bind]
    apply (rearm_spec owes).mono
    rintro r u ⟨owes', unwritten, done⟩
    rw [wp_ite]
    refine ⟨fun _ => abandon_spec owes', fun ok => ?_⟩
    have zero : r = 0 := by have := done.code; omega
    rw [wp_bind]
    apply commit_spec (by rw [unwritten]; rfl)
    simp only [not_true, ↓reduceIte, wp_bind, wp_modify, wp_pure]
    refine .written bs he ((commit_owes owes').finish (fun pending => pending rfl) ?_)
    have armed := done.armed zero
    rw [← unwritten] at armed
    exact armed
  | failed rollback =>
    obtain ⟨current', owes, code⟩ := hp.owes.rollback hp.holds hp.gone rollback
    have failed : rs ≠ .ok := by
      rcases code with ⟨rfl, -⟩ | ⟨rfl, -⟩ <;> decide
    simp only [failed, ne_eq, not_false_eq_true, ↓reduceIte, wp_bind, wp_read]
    rw [wp_ite]
    refine ⟨fun pending => .retained ⟨⟨_, owes⟩, .inr pending⟩, fun closed => ?_⟩
    rw [wp_bind]
    apply (rearm_closed_spec owes closed).mono
    rintro r u (⟨rfl, settled⟩ | ⟨rfl, retained⟩)
    · simpa using .unchanged (.inl rfl) settled
    · exact .retained retained

theorem capture_spec (hs : Settled base installed s) :
    (memoryWriteCaptureBreakpoints address size).wp (fun r t =>
      (r = -1 ∧ (Settled base installed t ∨ Retained base installed t)) ∨
      (r = 0 ∧ Owes base base installed t ∧ Clear installed t.write.rearm address size ∧
        ¬memoryTransactionIsPending t.write.transaction ∧ Lifted t)) s := by
  obtain ⟨ho, hc⟩ := settled_capture hs address size
  simp only [memoryWriteCaptureBreakpoints, wp_bind, wp_modify]
  apply (removeRearm_spec ho).mono
  rintro removed t ⟨ho', hsa, hco, hg⟩
  rw [wp_ite]
  refine ⟨fun _ => ?_, fun ok => .inr ⟨rfl, ho', ?_, ?_, hg (by omega)⟩⟩
  · rw [wp_bind]
    apply (restorePending_spec ho').mono
    rintro _ u (⟨-, hs'⟩ | ⟨-, hr⟩)
    · exact .inl ⟨rfl, .inl hs'⟩
    · exact .inl ⟨rfl, .inr hr⟩
  · rw [hsa]
    exact hc
  · rw [hsa]
    exact (not_or.mp hs.idle).2

theorem prepareLive_spec (how : Owes base base installed s)
    (hc : Clear installed s.write.rearm address size) (hp : 0 < size) (hg : Lifted s) :
    ((memoryTransactionPrepare address size).lift transactionPart).wp (fun r t =>
      (r ≠ .ok ∧ t = s) ∨ (r = .ok ∧ Prepared base installed address size t)) s := by
  apply wp_lift
  apply (prepare_spec (transactionPart.view s) address size hp).mono
  intro r t hou
  cases hou with
  | refused _ hf => exact .inl ⟨hf, rfl⟩
  | prepared hid hfi =>
    have hu : ∀ a, InSpan address size a → ∀ i, Occupied (s.target.breakpoints i) →
        ¬Covers (s.target.breakpoints i) a := by
      intro a hi i ho hco
      have hm := (how.table.kept i ho (hg i ho)).2
      exact hc _ hm (hg i ho) a hco hi
    have hb : load s.target.mem address size = load base address size :=
      load_eq_load_iff.mpr fun a hi => how.guards.outside a (hu a hi)
    have hh : Holds { s.write.transaction with
        address, size, original := some (load s.target.mem address size), state := .prepared }
        (load base address size) :=
      ⟨by simp, by simp [hb], load_length _ _ _, hp, hfi⟩
    exact .inr ⟨rfl, ⟨how.guards, how.table, .inr ⟨hh, .refl _ _ _, hc⟩⟩, rfl, rfl, rfl, hh, hg⟩

theorem memoryWriteLive_outcome (hs : Settled base installed s) :
    (memoryWriteLive address data size).wp (WriteOutcome base installed address data size) s := by
  simp only [memoryWriteLive, wp_bind, wp_read]
  rw [wp_ite]
  refine ⟨fun _ => .unchanged (.inl rfl) hs, fun _ => ?_⟩
  rw [wp_bind]
  apply (reserve_spec hs size).mono
  intro reserved t hs
  rw [wp_ite]
  refine ⟨fun _ => .unchanged (.inl rfl) hs, fun _ => ?_⟩
  rw [wp_ite]
  refine ⟨fun hz => ?_, fun hn => ?_⟩
  · refine .written [] ⟨by simp [hz], by simp [hz]⟩ ?_
    have hsa : store base address [] = base := by
      funext a
      exact store_outside base address [] a fun hi => by
        have := hi.1
        have := hi.2
        simp at this
        omega
    rwa [hsa]
  rw [wp_bind]
  apply (capture_spec hs).mono
  rintro captured u (⟨rfl, hs | hr⟩ | ⟨rfl, ho, hc, hid, hg⟩)
  · exact .unchanged (.inr rfl) hs
  · exact .retained hr
  simp only [lt_self_iff_false, ↓reduceIte, wp_bind]
  apply (prepareLive_spec ho hc (by omega) hg).mono
  rintro result v (⟨hf, rfl⟩ | ⟨rfl, hp⟩)
  · simp only [hf, ne_eq, not_false_eq_true, ↓reduceIte, wp_bind]
    apply (rearm_closed_spec ho hid).mono
    rintro rearmed w (⟨rfl, hs⟩ | ⟨rfl, hr⟩)
    · simpa [hs.idle] using .unchanged (.inl rfl) hs
    · simpa [hr.2] using .retained hr
  cases hd : decodeHexBytes size ((data.getD []).take (size * 2)) with
  | none => exact abandon_spec hp.owes
  | some bytes =>
    exact applyDecoded_spec hp ⟨decodeHexBytes_length hd, fun _ => hd⟩

theorem sweepPending_spec (ho : Owes base current installed s) :
    (breakpointRestorePending.lift tablePart).wp (fun _ t => Owes base current installed t) s := by
  apply wp_lift
  apply (removeEach_spec occupied_of_pending (nodup_finRange _) ho.guards).mono
  rintro result t ⟨hg, hs⟩
  exact ⟨hg, ho.table.sweptPending hs, ho.recovery⟩

/-- Any number of failed retries, and of bulk retries of pending slots. -/
inductive Retries (s : LiveState) : LiveState → Prop
  | refl : Retries s s
  | retry {t u : LiveState} {result : ℤ} (before : Retries s t) (failed : result ≠ 0)
      (ends : memoryWriteRestorePending.Ends t result u) : Retries s u
  | sweep {t u : LiveState} {result : ℤ} (before : Retries s t)
      (ends : (breakpointRestorePending.lift tablePart).Ends t result u) : Retries s u

theorem Retries.owes {t : LiveState} (hr : Retries s t)
    (ho : Owes base current installed s) : ∃ c', Owes base c' installed t := by
  induction hr with
  | refl => exact ⟨current, ho⟩
  | retry _ hf he ih =>
    obtain ⟨_, ho'⟩ := ih
    rcases he.post (restorePending_spec ho') with ⟨hz, -⟩ | ⟨-, hk, -⟩
    · exact (hf hz).elim
    · exact hk
  | sweep _ he ih =>
    obtain ⟨c', ho'⟩ := ih
    exact ⟨c', he.post (sweepPending_spec ho')⟩

/-- What a debugger sees unchanged: the program and the breakpoints set in it. -/
def SameView (s t : LiveState) : Prop := logicalMemory t.target = logicalMemory s.target ∧
    installedSet t.target.breakpoints = installedSet s.target.breakpoints

theorem Settled.sameView {s t : LiveState}
    (hs : Settled (logicalMemory s.target) (installedSet s.target.breakpoints) t) :
    SameView s t := ⟨hs.guards.logicalMemory_eq, hs.installedSet_eq⟩

/-- An `M` write over live breakpoints is all or nothing, or owes the nothing. -/
theorem memoryWriteLive_atomic (sound : TableSound s.target)
    (armed : ∀ i, Occupied (s.target.breakpoints i) →
      (s.target.breakpoints i).patch.state = .installed)
    (idle : ¬memoryWriteHasPending s.write) {result : ℤ} {t : LiveState}
    (ends : (memoryWriteLive address data size).Ends s result t) :
    (result = 0 ∧ (∃ bytes, Encodes data size bytes ∧
        logicalMemory t.target = store (logicalMemory s.target) address bytes) ∧
        installedSet t.target.breakpoints = installedSet s.target.breakpoints) ∨
      (result = -1 ∧ SameView s t) ∨
      (result = -2 ∧ (SameView s t ∨ (memoryWriteHasPending t.write ∧
        ∀ u v, Retries t u → memoryWriteRestorePending.Ends u 0 v → SameView s v))) := by
  have settled := settled_of_sound sound armed idle
  cases ends.post (memoryWriteLive_outcome settled) with
  | written bytes encodes settled' =>
    exact .inl ⟨rfl, ⟨bytes, encodes, settled'.guards.logicalMemory_eq⟩, settled'.installedSet_eq⟩
  | unchanged code settled' =>
    have same := Settled.sameView settled'
    rcases code with rfl | rfl
    · exact .inr (.inl ⟨rfl, same⟩)
    · exact .inr (.inr ⟨rfl, .inl same⟩)
  | retained retained =>
    obtain ⟨⟨_, owes⟩, pending⟩ := retained
    refine .inr (.inr ⟨rfl, .inr ⟨pending, fun u v retries done => ?_⟩⟩)
    obtain ⟨_, owes'⟩ := retries.owes owes
    rcases done.post (restorePending_spec owes') with ⟨-, settled'⟩ | ⟨negative, -⟩
    · exact Settled.sameView settled'
    · simp at negative

end Outcome

/-- One Thumb trap at `0x8000` over zeroed memory. -/
def oneTrap : LiveState where
  target := setBreakpoint 0 ⟨⟨0x8000, [0, 0], thumbUdf, .installed, none⟩, false⟩
    (emptyTable (store (fun _ => 0) 0x8000 thumbUdf))
  write := ⟨none, memoryTransactionInit none 0, []⟩

theorem oneTrap_occupied {i : Index} (ho : Occupied (oneTrap.target.breakpoints i)) : i = 0 := by
  by_contra hd
  rw [oneTrap, setBreakpoint_other hd] at ho
  exact not_occupied_cleared ho

theorem oneTrap_sound : TableSound oneTrap.target where
  wellFormed i ho := by
    rw [oneTrap_occupied ho]
    exact ⟨by decide, .inl rfl, rfl⟩
  disjoint i j hd hf hs := by
    exact (hd ((oneTrap_occupied hf).trans (oneTrap_occupied hs).symm)).elim

/-- A two-byte write that straddles the end of the trap, with every call served. -/
theorem memoryWriteLive_atomic_over_trap :
    ∃ t, (memoryWriteLive 0x8001 (some [48, 97, 48, 98]) 2).Ends oneTrap 0 t ∧
      logicalMemory t.target = store (logicalMemory oneTrap.target) 0x8001 [10, 11] ∧
      installedSet t.target.breakpoints = installedSet oneTrap.target.breakpoints := by
  have hen : (memoryWriteLive 0x8001 (some [48, 97, 48, 98]) 2).Ends oneTrap 0 _ :=
    @Prog.ends_of_exec _ _ _ _ _ (List.replicate 80 { quiet with count := 2 }) _ _ _ rfl
  have ha : ∀ i, Occupied (oneTrap.target.breakpoints i) →
      (oneTrap.target.breakpoints i).patch.state = .installed := by
    intro i ho
    rw [oneTrap_occupied ho]
    rfl
  rcases memoryWriteLive_atomic oneTrap_sound ha (by decide) hen with
    ⟨-, ⟨bs, he, hw⟩, hs⟩ | ⟨hn, -⟩ | ⟨hn, -⟩
  · have hd : some [10, 11] = some bs := he.2 (by decide)
    rw [← Option.some.inj hd] at hw
    exact ⟨_, hen, hw, hs⟩
  · simp at hn
  · simp at hn

end VitaDebugger.MemoryWriteOutcome
