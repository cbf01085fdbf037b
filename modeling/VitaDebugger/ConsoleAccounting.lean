import Mathlib.Algebra.Order.BigOperators.Group.List
import Mathlib.Algebra.Order.Group.Nat
import Mathlib.Data.List.TakeWhile
import VitaDebugger.CallLedger
import VitaDebugger.ConsoleContract

/-! Every byte and every record offered to the console queue is sent, queued or counted
as dropped, and the published depth is the depth of the ring. Records and bytes are two
measures of one argument. -/

namespace VitaDebugger.ConsoleAccounting
open List Function UInt32
open AtomicProgram RelyGuarantee Rules CallLedger ConsoleFrame RingQueue ConsoleQueue
  ConsoleContract

inductive Measure where
  | records
  | bytes

namespace Measure

def pick {α : Type} (records bytes : α) : Measure → α
  | .records => records
  | .bytes => bytes

/-- What `size` offered bytes count for. -/
def of (m : Measure) (size : ℕ) : ℕ := pick (recordCount size) size m

/-- What one record of `size` bytes counts for. -/
def one (m : Measure) (size : ℕ) : ℕ := pick 1 size m

def sent : Measure → Counter := pick .sentRecords .sentBytes

def queued : Measure → Counter := pick .queuedRecords .queuedBytes

def dropped (m : Measure) (cause : DropCause) : Counter := pick cause.records cause.bytes m

/-- The counters records leave the queue for. -/
def outflow (m : Measure) : List Counter :=
  [m.sent, m.dropped .disconnected, m.dropped .contention, m.dropped .full, m.dropped .stale]

def total (m : Measure) (records : List Record) : UInt32 :=
  UInt32.ofNat ((records.map fun record => m.one record.data.length).sum)

theorem total_cons (m : Measure) (r : Record) (rs : List Record) :
    m.total (r :: rs) = UInt32.ofNat (m.one r.data.length) + m.total rs := by
  simp [total, ofNat_add]

theorem total_append (m : Measure) (f second : List Record) :
    m.total (f ++ second) = m.total f + m.total second := by
  simp [total, ofNat_add]

end Measure

/-- What has left the queue and what is in it. -/
def accounted (m : Measure) (s : ConsoleState) : UInt32 :=
  (m.outflow.map s.stats).sum + m.total s.ring.toList

variable {counter : Counter}

section Counters
variable {m : Measure} {s t : ConsoleState}

theorem accounted_congr (hs : ∀ counter ∈ m.outflow, t.stats counter = s.stats counter)
    (hr : t.ring.toList = s.ring.toList) : accounted m t = accounted m s := by
  unfold accounted
  rw [map_congr_left hs, hr]

theorem accounted_add_of_notMem (ho : counter ∉ m.outflow) (a : ℕ) :
    accounted m (s.add counter a) = accounted m s := by
  refine accounted_congr (fun mine mem => update_of_ne ?_ _ _) rfl
  rintro rfl
  exact ho mem

theorem outflow_nodup (m : Measure) : m.outflow.Nodup := by cases m <;> decide

theorem sum_add_one {cs : List Counter} (hn : cs.Nodup)
    (mem : counter ∈ cs) (a : ℕ) : (cs.map (s.add counter a).stats).sum =
      (cs.map s.stats).sum + UInt32.ofNat a := by
  induction cs with
  | nil => exact absurd mem not_mem_nil
  | cons f rest ih =>
    obtain ⟨hf, hn⟩ := nodup_cons.mp hn
    rw [map_cons, map_cons, sum_cons, sum_cons]
    by_cases hh : f = counter
    · subst hh
      have ho : rest.map (s.add f a).stats = rest.map s.stats := by
        refine map_congr_left fun other hl => update_of_ne ?_ _ _
        rintro rfl
        exact hf hl
      have hm : (s.add f a).stats f = s.stats f + UInt32.ofNat a :=
        update_self ..
      rw [ho, hm]
      abel
    have hl : counter ∈ rest := (mem_cons.mp mem).resolve_left (Ne.symm hh)
    have hk : (s.add counter a).stats f = s.stats f := update_of_ne hh _ _
    rw [ih hn hl, hk, add_assoc]

theorem accounted_add_of_mem (hm : counter ∈ m.outflow) (a : ℕ) :
    accounted m (s.add counter a) = accounted m s + UInt32.ofNat a := by
  change ((m.outflow.map _).sum + m.total s.ring.toList) = _
  rw [sum_add_one (outflow_nodup m) hm, accounted]
  abel

theorem accounted_publishDepth : accounted m s.publishDepth = accounted m s := by
  refine accounted_congr (fun counter mem => ?_) rfl
  have hd : counter ≠ .queuedRecords ∧ counter ≠ .queuedBytes := by
    cases m <;> simp [Measure.outflow, Measure.sent, Measure.dropped, Measure.pick,
      DropCause.records, DropCause.bytes] at mem <;> rcases mem with rfl | rfl | rfl | rfl | rfl <;>
      decide
  rw [ConsoleState.publishDepth]
  dsimp only
  rw [update_of_ne hd.2, update_of_ne hd.1]

end Counters

/-! The work under the queue lock. -/

section Locked
variable (m : Measure) (s : ConsoleState)

/-- The running byte count is that of the ring. -/
def Tallied (s : ConsoleState) : Prop := s.bytes = Measure.total .bytes s.ring.toList

variable {s} in
theorem removeHead_total (hf : 0 < s.ring.count) :
    m.total s.ring.toList = UInt32.ofNat (m.one (s.ring.get 0).data.length) +
      m.total (s.removeHead hf).ring.toList := by
  change _ = _ + m.total (s.ring.pop hf).toList
  rw [s.ring.toList_eq_cons hf, m.total_cons, Ring.toList_pop]

theorem tallied_removeHead {s : ConsoleState} (hf : 0 < s.ring.count) (ht : Tallied s) :
    Tallied (s.removeHead hf) := by
  change s.bytes - _ = _
  rw [ht, removeHead_total .bytes hf]
  exact add_sub_cancel_left _ _

variable {s} in
theorem accounted_removeHead (hf : 0 < s.ring.count) :
    accounted m (s.removeHead hf) + UInt32.ofNat (m.one (s.ring.get 0).data.length) =
      accounted m s := by
  change (m.outflow.map s.stats).sum + m.total (s.removeHead hf).ring.toList + _ =
    (m.outflow.map s.stats).sum + m.total s.ring.toList
  rw [removeHead_total m hf]
  abel

theorem accounted_dropHeadAsStale : accounted m s.dropHeadAsStale = accounted m s := by
  unfold ConsoleState.dropHeadAsStale
  split
  · next hf =>
    have hn : accounted m ((s.add .droppedStaleRecords 1).add .droppedStaleBytes
        (s.ring.get 0).data.length) =
          accounted m s + UInt32.ofNat (m.one (s.ring.get 0).data.length) := by
      cases m with
      | records => rw [accounted_add_of_notMem (by decide), accounted_add_of_mem (by decide)]; rfl
      | bytes => rw [accounted_add_of_mem (by decide), accounted_add_of_notMem (by decide)]; rfl
    have hr := accounted_removeHead m (s := (s.add .droppedStaleRecords 1).add
      .droppedStaleBytes (s.ring.get 0).data.length) hf
    exact add_right_cancel (hr.trans hn)
  · rfl

theorem tallied_dropHeadAsStale {s : ConsoleState} (ht : Tallied s) :
    Tallied s.dropHeadAsStale := by
  unfold ConsoleState.dropHeadAsStale
  split
  · next hf => exact tallied_removeHead hf ht
  · exact ht

theorem purgeWhile_keeps {I : ConsoleState → Prop} (hk : ∀ s, I s → I s.dropHeadAsStale)
    (u : Record → Bool) (fuel : ℕ) {s : ConsoleState} (hh : I s) :
    I (s.purgeWhile u fuel) := by
  induction fuel generalizing s with
  | zero => exact hh
  | succ fuel ih =>
    unfold ConsoleState.purgeWhile
    split
    · exact hh
    · split
      · exact ih (hk s hh)
      · exact hh

theorem accounted_purgeWhile (u : Record → Bool) (fuel : ℕ) :
    accounted m (s.purgeWhile u fuel) = accounted m s :=
  purgeWhile_keeps (I := fun t => accounted m t = accounted m s)
    (fun t hs => (accounted_dropHeadAsStale m t).trans hs) u fuel rfl

theorem accounted_purgeOtherGenerations (g : UInt32) :
    accounted m (s.purgeOtherGenerations g) = accounted m s :=
  accounted_publishDepth.trans (accounted_purgeWhile m s _ _)

theorem purge_empty : (s.purgeWhile (fun _ => true) s.ring.count).ring.toList = [] := by
  rw [(purgeWhile_spec (fun _ => true) s.ring.count s (by simp)).2]
  exact dropWhile_eq_nil_iff.mpr fun _ _ => rfl

theorem accounted_purge : accounted m s.purge = accounted m s := by
  unfold ConsoleState.purge
  rw [accounted_publishDepth, ← accounted_purgeWhile m s (fun _ => true) s.ring.count]
  exact accounted_congr (fun _ _ => rfl) (purge_empty s).symm

theorem of_take_drop {d : Bytes} (hs : d ≠ []) :
    m.one (d.take recordMax).length + m.of (d.drop recordMax).length = m.of d.length := by
  have pos : 0 < d.length := length_pos_of_ne_nil hs
  rw [length_take, length_drop]
  cases m with
  | records =>
    simp only [Measure.one, Measure.of, Measure.pick, recordCount, recordMax]
    split <;> split <;> omega
  | bytes =>
    simp only [Measure.one, Measure.of, Measure.pick]
    omega

theorem storeRecords_total (g : UInt32) (f : ℕ) (d : Bytes) :
    m.total (s.storeRecords g f d).2.1 +
      UInt32.ofNat (m.of (s.storeRecords g f d).2.2.length) =
        UInt32.ofNat (m.of d.length) := by
  induction f generalizing d s with
  | zero => exact zero_add _
  | succ f ih =>
    unfold ConsoleState.storeRecords
    split
    · next hr =>
      rw [m.total_cons, add_assoc, ih, ← ofNat_add, of_take_drop m hr.1]
    · exact zero_add _

theorem storeRecords_stats (g : UInt32) (fuel : ℕ) (data : Bytes) :
    (s.storeRecords g fuel data).1.stats = s.stats := by
  induction fuel generalizing data s with
  | zero => rfl
  | succ fuel ih =>
    unfold ConsoleState.storeRecords
    split
    · exact ih _ _
    · rfl

theorem tallied_storeRecords {s : ConsoleState} (g : UInt32) (fuel : ℕ)
    (data : Bytes) (ht : Tallied s) :
    Tallied (s.storeRecords g fuel data).1 := by
  induction fuel generalizing data s with
  | zero => exact ht
  | succ fuel ih =>
    unfold ConsoleState.storeRecords
    split
    · next hr =>
      refine ih _ ?_
      change s.bytes + _ = Measure.total .bytes (s.ring.push _ hr.2).toList
      rw [Ring.toList_push, Measure.total_append, ht]
      rfl
    · exact ht

end Locked

/-! What each call owes. -/

section Calls
variable {m : Measure} {due left : UInt32}

theorem pays_adds {records bytes : Counter} (hm : m.pick records bytes ∈ m.outflow)
    (ho : m.pick bytes records ∉ m.outflow) (count size : ℕ) :
    Pays (accounted m) (consoleAdd records count >>= fun _ => consoleAdd bytes size)
      (UInt32.ofNat (m.pick count size) + left) fun _ => left := by
  have own {counter : Counter} (hm : counter ∈ m.outflow) (a : ℕ) :
      Pays (accounted m) (consoleAdd counter a) (UInt32.ofNat a + left) fun _ => left :=
    pays_perform fun s _ => by
      rw [accounted_add_of_mem hm]
      abel
  have hs {counter : Counter} (ho : counter ∉ m.outflow) (a : ℕ) {due : UInt32} :
      Pays (accounted m) (consoleAdd counter a) due fun _ => due :=
    pays_still fun _ _ => accounted_add_of_notMem ho a
  cases m with
  | records => exact (own hm count).bind fun _ => hs ho size
  | bytes => exact (hs ho count).bind fun _ => own hm size

theorem pays_noteDrop (cause : DropCause) (size : ℕ) :
    Pays (accounted m) (noteDrop cause size) (UInt32.ofNat (m.of size) + left) fun _ => left := by
  refine pays_ite (fun hz => ?_) fun _ => pays_adds ?_ ?_ _ _
  · subst hz
    cases m <;> exact zero_add left
  · cases m <;> cases cause <;> decide
  · cases m <;> cases cause <;> decide

theorem pays_noteSent (size : ℕ) :
    Pays (accounted m) (noteSent size) (UInt32.ofNat (m.one size) + left) fun _ => left :=
  pays_adds (by cases m <;> decide) (by cases m <;> decide) _ _

theorem pays_noteAccepted (rs taken : ℕ) :
    Pays (accounted m) (noteAccepted rs taken) due fun _ => due := by
  have hs {counter : Counter} (ho : counter ∉ m.outflow) (a : ℕ) :
      Pays (accounted m) (consoleAdd counter a) due fun _ => due :=
    pays_still fun _ _ => accounted_add_of_notMem ho a
  refine pays_ite (fun _ => rfl) fun _ => ?_
  exact (hs (by cases m <;> decide) rs).bind fun _ => hs (by cases m <;> decide) taken

theorem pays_tryLock {holder : ConsoleState → Option ℕ} {take : ConsoleState → ConsoleState}
    (same : ∀ s, accounted m (take s) = accounted m s) :
    Pays (accounted m) (tryLock holder take) due fun _ => due := by
  refine pays_still fun s w => ?_
  split
  · exact same s
  · rfl

theorem pays_tryLockQueue (me : ℕ) : Pays (accounted m) (tryLockQueue me) due fun _ => due :=
  pays_tryLock fun _ => rfl

theorem pays_tryLockLifecycle (me : ℕ) :
    Pays (accounted m) (tryLockLifecycle me) due fun _ => due := pays_tryLock fun _ => rfl

theorem pays_unlockQueue : Pays (accounted m) unlockQueue due fun _ => due :=
  pays_still fun _ _ => rfl

theorem pays_loadSession : Pays (accounted m) loadSession due fun _ => due :=
  pays_still fun _ _ => rfl

/-- What a capture could not store it still owes. -/
theorem pays_captureLocked (g : UInt32) (d : Bytes) :
    Pays (accounted m) (captureLocked g d) (UInt32.ofNat (m.of d.length))
      fun stored => UInt32.ofNat (m.of (d.length - stored.2)) := by
  refine pays_perform fun s _ => ?_
  have hp := accounted_purgeOtherGenerations m s g
  have ht := storeRecords_total m (s.purgeOtherGenerations g) g queueSlots d
  have hs := storeRecords_stats (s.purgeOtherGenerations g) g queueSlots d
  have hsp := storeRecords_spec g queueSlots d (s.purgeOtherGenerations g)
  have hl := hsp.list
  have hb := congrArg List.length hsp.bytes
  dsimp only
  generalize (s.purgeOtherGenerations g).storeRecords g queueSlots d = stored
    at ht hs hl hb
  rw [length_append] at hb
  have hr : d.length - (d.length - stored.2.2.length) = stored.2.2.length := by omega
  have ha : accounted m stored.1 = accounted m s + m.total stored.2.1 := by
    rw [← hp, accounted, accounted, hs, hl, m.total_append]
    abel
  rw [hr, ← ht, ← add_assoc, ← ha, ← accounted_publishDepth (s := stored.1)]
  rfl

theorem pays_capture (me : ℕ) (data : Bytes) :
    Pays (accounted m) (capture me data) (UInt32.ofNat (m.of data.length)) fun _ => 0 := by
  have hd (cs : DropCause) (sz : ℕ) : Pays (accounted m) (noteDrop cs sz)
      (UInt32.ofNat (m.of sz)) fun _ => 0 := by
    have hn : Pays (accounted m) (noteDrop cs sz) (UInt32.ofNat (m.of sz) + 0)
        fun _ => 0 := pays_noteDrop cs sz
    rwa [add_zero] at hn
  refine pays_ite (fun hno => ?_) fun _ => ?_
  · subst hno
    cases m <;> rfl
  refine pays_loadSession.bind fun session => pays_ite (fun _ => ?_) fun _ => ?_
  · refine (pays_tryLockQueue me).bind fun taken => pays_ite (fun _ => ?_) fun _ => ?_
    · refine pays_loadSession.bind fun again => pays_ite (fun _ => ?_) fun _ => ?_
      · refine (pays_captureLocked _ data).bind fun stored => pays_unlockQueue.bind fun _ => ?_
        exact (pays_noteAccepted _ _).bind fun _ => (hd .full _).bind fun _ => rfl
      · exact pays_unlockQueue.bind fun _ => (hd .stale _).bind fun _ => rfl
    · exact (hd .contention _).bind fun _ => rfl
  · exact (hd .disconnected _).bind fun _ => rfl

theorem pays_peek (me : ℕ) (g : UInt32) : Pays (accounted m) (peek me g) 0 fun _ => 0 := by
  refine pays_ite (fun _ => ?_) fun _ => rfl
  refine pays_loadSession.bind fun session => pays_ite (fun _ => ?_) fun _ => rfl
  refine (pays_tryLockQueue me).bind fun taken => pays_ite (fun _ => ?_) fun _ => rfl
  refine pays_loadSession.bind fun again => pays_ite (fun _ => ?_) fun _ => ?_
  · have hl : Pays (accounted m) (peekLocked g) 0 fun _ => 0 :=
      pays_still fun s _ => accounted_purgeOtherGenerations m s g
    exact hl.bind fun _ => pays_unlockQueue.bind fun _ => rfl
  · exact pays_unlockQueue.bind fun _ => rfl

theorem pays_commitLocked (g : UInt32) (sequence : UInt64) :
    Pays (accounted m) (commitLocked g sequence) 0
      fun r => r.elim 0 fun size => UInt32.ofNat (m.one size) := by
  refine pays_perform fun s _ => ?_
  have hp := accounted_purgeOtherGenerations m s g
  rw [add_zero, ← hp]
  dsimp only
  split
  · next hf => exact (congrArg (· + _) accounted_publishDepth).trans (accounted_removeHead m hf.1)
  · exact add_zero _

theorem pays_commitSent (me : ℕ) (g : UInt32) (sequence : UInt64) :
    Pays (accounted m) (commitSent me g sequence) 0 fun _ => 0 := by
  refine pays_ite (fun _ => ?_) fun _ => rfl
  refine pays_loadSession.bind fun session => pays_ite (fun _ => ?_) fun _ => rfl
  refine (pays_tryLockQueue me).bind fun taken => pays_ite (fun _ => ?_) fun _ => rfl
  refine pays_loadSession.bind fun again => pays_ite (fun _ => ?_) fun _ => ?_
  · refine (pays_commitLocked g sequence).bind fun r =>
      pays_unlockQueue.bind fun _ => ?_
    cases r with
    | none => rfl
    | some size =>
      have hs : Pays (accounted m) (noteSent size) (UInt32.ofNat (m.one size) + 0)
          fun _ => 0 := pays_noteSent size
      rw [add_zero] at hs
      exact hs.bind fun _ => rfl
  · exact pays_unlockQueue.bind fun _ => rfl

theorem pays_purgeIfFree (me : ℕ) : Pays (accounted m) (purgeIfFree me) 0 fun _ => 0 := by
  refine (pays_tryLockQueue me).bind fun taken => pays_ite (fun _ => ?_) fun _ => rfl
  have hp : Pays (accounted m) (Prog.modify (·.purge) : Console Unit) 0 fun _ => 0 :=
    pays_still fun s _ => accounted_purge m s
  exact hp.bind fun _ => pays_unlockQueue.bind fun _ => rfl

theorem pays_noteOpened : Pays (accounted m) noteOpened 0 fun _ => 0 := by
  have hs {counter : Counter} (ho : counter ∉ m.outflow) :
      Pays (accounted m) (consoleAdd counter 1) 0 fun _ => 0 :=
    pays_still fun _ _ => accounted_add_of_notMem ho 1
  have hl : Pays (accounted m) (Prog.read (·.everOpened) : Console Bool) 0 fun _ => 0 :=
    pays_still fun _ _ => rfl
  refine (hs (by cases m <;> decide)).bind fun _ => hl.bind fun again => ?_
  exact pays_ite (fun _ => hs (by cases m <;> decide)) fun _ => pays_still fun _ _ => rfl

theorem pays_sessionOpen (me : ℕ) : Pays (accounted m) (sessionOpen me) 0 fun _ => 0 := by
  have hs (f : ConsoleState → ConsoleState) (hsa : ∀ s, accounted m (f s) = accounted m s) :
      Pays (accounted m) (Prog.modify f : Console Unit) 0 fun _ => 0 :=
    pays_still fun s _ => hsa s
  refine (pays_tryLockLifecycle me).bind fun held => pays_ite (fun _ => ?_) fun _ => rfl
  refine pays_loadSession.bind fun session => (hs _ fun _ => rfl).bind fun _ => ?_
  refine (pays_purgeIfFree me).bind fun _ => pays_noteOpened.bind fun _ => ?_
  exact (hs _ fun _ => rfl).bind fun _ => (hs _ fun _ => rfl).bind fun _ => rfl

theorem pays_sessionClose (me : ℕ) (g : UInt32) :
    Pays (accounted m) (sessionClose me g) 0 fun _ => 0 := by
  have hg : Pays (accounted m) (closeGate g) 0 fun _ => 0 := by
    refine pays_still fun s _ => ?_
    split
    · rfl
    · split <;> rfl
  have hu : Pays (accounted m) unlockLifecycle 0 fun _ => 0 := pays_still fun _ _ => rfl
  refine pays_ite (fun _ => ?_) fun _ => rfl
  refine hg.bind fun closed => pays_ite (fun _ => ?_) fun _ => rfl
  refine (pays_tryLockLifecycle me).bind fun held => pays_ite (fun _ => ?_) fun _ => rfl
  exact (pays_purgeIfFree me).bind fun purged => hu.bind fun _ => rfl

theorem pays_closeActiveGate : Pays (accounted m) sessionCloseActiveGate 0 fun _ => 0 := by
  refine pays_still fun s _ => ?_
  dsimp only
  split <;> rfl

end Calls

/-! The published depth. -/

/-- The byte count is that of the ring, and both depths are published. -/
structure Published (s : ConsoleState) : Prop where
  tallied : Tallied s
  depth : ∀ m : Measure, s.stats m.queued = m.total s.ring.toList

theorem total_records (rs : List Record) : Measure.total .records rs = UInt32.ofNat rs.length := by
  simp [Measure.total, Measure.one, Measure.pick]

theorem Tallied.publishDepth {s : ConsoleState} (ht : Tallied s) : Published s.publishDepth where
  tallied := ht
  depth m := by
    cases m with
    | records =>
      have hp : s.publishDepth.stats .queuedRecords = UInt32.ofNat s.ring.count := by
        simp [ConsoleState.publishDepth]
      rw [total_records, Ring.length_toList]
      exact hp
    | bytes =>
      have hp : s.publishDepth.stats .queuedBytes = s.bytes := by
        simp [ConsoleState.publishDepth]
      exact hp.trans ht

theorem Published.purgeOtherGenerations {s : ConsoleState} (hp : Published s)
    (g : UInt32) : Published (s.purgeOtherGenerations g) :=
  (purgeWhile_keeps (I := Tallied) (fun _ => tallied_dropHeadAsStale) _ _ hp.tallied).publishDepth

theorem Published.purge {s : ConsoleState} (hp : Published s) : Published s.purge := by
  have ht : Tallied (s.purgeWhile (fun _ => true) s.ring.count) :=
    purgeWhile_keeps (I := Tallied) (fun _ => tallied_dropHeadAsStale) _ _ hp.tallied
  refine Tallied.publishDepth ?_
  change ConsoleState.bytes _ = Measure.total .bytes []
  rw [← purge_empty s]
  exact ht

theorem Published.congr {s t : ConsoleState} (hp : Published s) (hb : t.bytes = s.bytes)
    (hr : t.ring = s.ring) (hs : ∀ m : Measure, t.stats m.queued = s.stats m.queued) :
    Published t where
  tallied := by
    rw [Tallied, hb, hr]
    exact hp.tallied
  depth m := by
    rw [hs, hr]
    exact hp.depth m

section Depth
variable {i : ℕ}

/-- Whatever the other threads do, each action keeps the published depth true. -/
abbrev Publishes {α : Type} (i : ℕ) (p : Console α) : Prop :=
  (Rules.ofInvariant Published).Always i p

theorem publishes_still {α : Type} {f : ConsoleState → ConsoleReply → α × ConsoleState}
    (hs : ∀ s w, (f s w).2.bytes = s.bytes ∧ (f s w).2.ring = s.ring ∧
      (f s w).2.stats = s.stats) : Publishes i (Prog.perform f) :=
  always_perform fun s w hp =>
    hp.congr (hs s w).1 (hs s w).2.1 fun _ => by rw [(hs s w).2.2]

theorem publishes_consoleAdd (ho : counter ≠ .queuedRecords ∧ counter ≠ .queuedBytes) (a : ℕ) :
    Publishes i (consoleAdd counter a) := by
  refine always_perform fun s w hp => hp.congr rfl rfl fun m => ?_
  refine update_of_ne ?_ _ _
  cases m with
  | records => exact ho.1.symm
  | bytes => exact ho.2.symm

theorem publishes_noteDrop (cause : DropCause) (size : ℕ) : Publishes i (noteDrop cause size) := by
  refine .ite (.pure _) (.bind ?_ fun _ => ?_)
  · exact publishes_consoleAdd (by cases cause <;> decide) _
  · exact publishes_consoleAdd (by cases cause <;> decide) _

theorem publishes_tryLock {holder : ConsoleState → Option ℕ} {take : ConsoleState → ConsoleState}
    (same : ∀ s, (take s).bytes = s.bytes ∧ (take s).ring = s.ring ∧ (take s).stats = s.stats) :
    Publishes i (tryLock holder take) := by
  refine publishes_still fun s w => ?_
  split
  · exact same s
  · exact ⟨rfl, rfl, rfl⟩

theorem publishes_tryLockQueue (me : ℕ) : Publishes i (tryLockQueue me) :=
  publishes_tryLock fun _ => ⟨rfl, rfl, rfl⟩

theorem publishes_tryLockLifecycle (me : ℕ) : Publishes i (tryLockLifecycle me) :=
  publishes_tryLock fun _ => ⟨rfl, rfl, rfl⟩

theorem publishes_loadSession : Publishes i loadSession :=
  publishes_still fun _ _ => ⟨rfl, rfl, rfl⟩

theorem publishes_unlockQueue : Publishes i unlockQueue :=
  publishes_still fun _ _ => ⟨rfl, rfl, rfl⟩

theorem publishes_capture (data : Bytes) : Publishes i (capture i data) := by
  have hl (g : UInt32) : Publishes i (captureLocked g data) := by
    refine always_perform fun s w hp => ?_
    have ht := tallied_storeRecords g queueSlots data
      (hp.purgeOtherGenerations g).tallied
    exact ⟨ht.publishDepth.tallied, ht.publishDepth.depth⟩
  have ha (rs tk : ℕ) : Publishes i (noteAccepted rs tk) :=
    .ite (.pure _) ((publishes_consoleAdd (by decide) _).bind
      fun _ => publishes_consoleAdd (by decide) _)
  have hd (cs : DropCause) (size a : ℕ) :
      Publishes i (noteDrop cs size >>= fun _ => pure a) :=
    (publishes_noteDrop cs size).bind fun _ => .pure _
  refine .ite (.pure _) (publishes_loadSession.bind ?_)
  refine fun session => .ite ((publishes_tryLockQueue i).bind ?_) (hd .disconnected _ _)
  refine fun tk => .ite (publishes_loadSession.bind fun again => ?_) (hd .contention _ _)
  refine .ite ((hl _).bind fun stored => ?_) (publishes_unlockQueue.bind fun _ => hd .stale _ _)
  exact publishes_unlockQueue.bind fun _ =>
    (ha _ _).bind fun _ => hd .full _ _

theorem publishes_peek (g : UInt32) : Publishes i (peek i g) := by
  have hl : Publishes i (peekLocked g) :=
    always_perform fun s w hp => hp.purgeOtherGenerations g
  refine .ite (publishes_loadSession.bind fun session => ?_) (.pure _)
  refine .ite ((publishes_tryLockQueue i).bind fun taken => ?_) (.pure _)
  refine .ite (publishes_loadSession.bind fun again => ?_) (.pure _)
  exact .ite (hl.bind fun _ => publishes_unlockQueue.bind fun _ => .pure _)
    (publishes_unlockQueue.bind fun _ => .pure _)

theorem publishes_commitSent (g : UInt32) (sequence : UInt64) :
    Publishes i (commitSent i g sequence) := by
  have hl : Publishes i (commitLocked g sequence) := by
    refine always_perform fun s w hp => ?_
    have hpu := hp.purgeOtherGenerations g
    dsimp only
    split
    · next hf => exact (tallied_removeHead hf.1 hpu.tallied).publishDepth
    · exact hpu
  have hs (size : ℕ) : Publishes i (noteSent size) :=
    (publishes_consoleAdd (by decide) _).bind fun _ =>
      publishes_consoleAdd (by decide) _
  refine .ite (publishes_loadSession.bind fun session => ?_) (.pure _)
  refine .ite ((publishes_tryLockQueue i).bind fun taken => ?_) (.pure _)
  refine .ite (publishes_loadSession.bind fun again => ?_) (.pure _)
  refine .ite (hl.bind fun r => ?_) (publishes_unlockQueue.bind fun _ => .pure _)
  refine publishes_unlockQueue.bind fun _ => ?_
  cases r with
  | none => exact .pure _
  | some size => exact (hs size).bind fun _ => .pure _

theorem publishes_purgeIfFree : Publishes i (purgeIfFree i) := by
  refine (publishes_tryLockQueue i).bind fun taken => .ite ?_ (.pure _)
  refine (always_perform fun s _ hp => hp.purge).bind fun _ => ?_
  exact publishes_unlockQueue.bind fun _ => .pure _

theorem publishes_sessionOpen : Publishes i (sessionOpen i) := by
  have hs (f : ConsoleState → ConsoleState) (hsa : ∀ s, (f s).bytes = s.bytes ∧
      (f s).ring = s.ring ∧ (f s).stats = s.stats) : Publishes i (Prog.modify f : Console Unit) :=
    publishes_still fun s _ => hsa s
  have ho : Publishes i noteOpened := by
    refine (publishes_consoleAdd (by decide) _).bind fun _ => (Always.read _).bind fun again => ?_
    exact .ite (publishes_consoleAdd (by decide) _) (hs _ fun _ => ⟨rfl, rfl, rfl⟩)
  refine (publishes_tryLockLifecycle i).bind fun held => .ite ?_ (.pure _)
  refine publishes_loadSession.bind fun session =>
    Always.bind (hs _ fun _ => ⟨rfl, rfl, rfl⟩) fun _ => ?_
  refine publishes_purgeIfFree.bind fun _ => ho.bind fun _ => ?_
  exact Always.bind (hs _ fun _ => ⟨rfl, rfl, rfl⟩) fun _ =>
    Always.bind (hs _ fun _ => ⟨rfl, rfl, rfl⟩) fun _ => .pure _

theorem publishes_sessionClose (g : UInt32) : Publishes i (sessionClose i g) := by
  have hg : Publishes i (closeGate g) := by
    refine publishes_still fun s _ => ?_
    split
    · exact ⟨rfl, rfl, rfl⟩
    · split <;> exact ⟨rfl, rfl, rfl⟩
  have hu : Publishes i unlockLifecycle := publishes_still fun _ _ => ⟨rfl, rfl, rfl⟩
  refine .ite (hg.bind fun closed => ?_) (.pure _)
  refine .ite ((publishes_tryLockLifecycle i).bind fun held => ?_) (.pure _)
  exact .ite (publishes_purgeIfFree.bind fun _ =>
    hu.bind fun _ => .pure _) (.pure _)

theorem publishes_closeActiveGate : Publishes i sessionCloseActiveGate := by
  refine publishes_still fun s _ => ?_
  dsimp only
  split <;> exact ⟨rfl, rfl, rfl⟩

end Depth

/-! Whole runs. -/

/-- The calls of `uvdb_console.h`; a capture without data is one of a null pointer. -/
inductive QueueCall where
  | capture (data : Option Bytes)
  | peek (generation : UInt32)
  | commitSent (generation : UInt32) (sequence : UInt64)
  | sessionOpen
  | sessionClose (generation : UInt32)
  | closeActiveGate

namespace QueueCall

def program (me : ℕ) : QueueCall → Console Unit
  | .capture none => pure ()
  | .capture (some data) => do
    let _ ← ConsoleQueue.capture me data
  | .peek generation => do
    let _ ← ConsoleQueue.peek me generation
  | .commitSent generation sequence => do
    let _ ← ConsoleQueue.commitSent me generation sequence
  | .sessionOpen => do
    let _ ← ConsoleQueue.sessionOpen me
  | .sessionClose generation => do
    let _ ← ConsoleQueue.sessionClose me generation
  | .closeActiveGate => sessionCloseActiveGate

/-- The bytes a call offers. -/
def size : QueueCall → ℕ
  | .capture (some data) => data.length
  | _ => 0

end QueueCall

/-- A run of any threads, with its calls, in which the session generations do not wrap. -/
abbrev QueueRun := Called QueueCall.program (fun s => s.opened < 2 ^ 31) reset

theorem pays_program (m : Measure) (i : ℕ) (call : QueueCall) :
    Pays (accounted m) (call.program i) (UInt32.ofNat (m.of call.size)) fun _ => 0 := by
  have hn {p : Console Unit} (hp : Pays (accounted m) p 0 fun _ => 0) :
      Pays (accounted m) p (UInt32.ofNat (m.of 0)) fun _ => 0 := by cases m <;> exact hp
  cases call with
  | capture data =>
    cases data with
    | none => exact hn rfl
    | some data => exact (pays_capture i data).bind fun _ => rfl
  | peek g => exact hn ((pays_peek i g).bind fun _ => rfl)
  | commitSent g sq =>
    exact hn ((pays_commitSent i g sq).bind fun _ => rfl)
  | sessionOpen => exact hn ((pays_sessionOpen i).bind fun _ => rfl)
  | sessionClose g => exact hn ((pays_sessionClose i g).bind fun _ => rfl)
  | closeActiveGate => exact hn pays_closeActiveGate

theorem publishes_program (i : ℕ) (call : QueueCall) : Publishes i (call.program i) := by
  cases call with
  | capture data =>
    cases data with
    | none => exact .pure ()
    | some data => exact (publishes_capture data).bind fun _ => .pure ()
  | peek g =>
    exact (publishes_peek g).bind fun _ => .pure ()
  | commitSent g sq =>
    exact (publishes_commitSent g sq).bind fun _ => .pure ()
  | sessionOpen => exact publishes_sessionOpen.bind fun _ => .pure ()
  | sessionClose g =>
    exact (publishes_sessionClose g).bind fun _ => .pure ()
  | closeActiveGate => exact publishes_closeActiveGate

/-- Any thread may make any call when no transport owns the session. -/
theorem holds_program {i : ℕ} (call : QueueCall) {s : ConsoleState} (hf : s.queueLock ≠ some i) :
    (consoleRules False).Holds i (call.program i) (fun _ t => t.queueLock ≠ some i) s := by
  have hl {t : ConsoleState} {α : Type} {f : ConsoleState → ConsoleReply → α × ConsoleState}
      (hr : ∀ s w, Requeued s (f s w).2 ∧ (f s w).2.ring.toList <:+ s.ring.toList)
      (hh : t.queueLock = some i) : (consoleRules False).Holds i (Prog.perform f)
        (fun _ u => True ∧ u.queueLock = some i) t := by
    refine holds_under stable_true.held ⟨trivial, hh⟩ fun u hk hhe w _ => ?_
    obtain ⟨hs, hsu⟩ := hr u w
    exact ⟨hk.framed hs.framed (hsu.trans hk.queue),
      guarantee_requeued hs hhe.2 False.elim, trivial, hs.queueLock.trans hhe.2⟩
  have hp (g : UInt32) (s : ConsoleState) :
      Requeued s (s.purgeOtherGenerations g) ∧
        (s.purgeOtherGenerations g).ring.toList <:+ s.ring.toList := by
    obtain ⟨hs, hli⟩ := purgeOtherGenerations_spec s g
    exact ⟨hs, hli ▸ dropWhile_suffix _⟩
  cases call with
  | capture data =>
    cases data with
    | none => exact hf
    | some data => exact (holds_bind ..).mpr (holds_capture data hf)
  | peek g =>
    refine (holds_peek (Q := fun _ _ => True) g
      stable_true blind_true (fun _ => stable_true) (fun _ => blind_true) (fun _ _ => trivial) ?_
      trivial hf).bind fun _ _ hb => hb.2
    exact fun t _ hh => hl (fun s _ => hp g s) hh
  | commitSent g sq =>
    refine (holds_commitSent (Q := fun _ _ => True)
      g sq stable_true blind_true (fun _ => stable_true) (fun _ => blind_true)
      (fun _ _ => trivial) ?_ trivial hf).bind fun _ _ hb => hb.2
    refine fun t _ hh => hl (fun s _ => ?_) hh
    dsimp only
    split
    · next hfi =>
      have hpo := Ring.toList_pop _ hfi.1
      refine ⟨(hp g s).1.trans (requeued_with _ _ _ _ _), ?_⟩
      exact (hpo ▸ tail_suffix _).trans (hp g s).2
    · exact hp g s
  | sessionOpen =>
    exact (holds_sessionOpen (P := fun _ => True)
      (Q := fun _ _ => True) False.elim stable_true (fun _ _ _ _ _ _ => trivial)
      (fun _ => stable_true) (fun _ _ _ _ => trivial) (fun _ _ _ _ _ _ => trivial) trivial hf).bind
      fun _ _ hb => hb.1
  | sessionClose g =>
    exact (holds_sessionClose g False.elim
      stable_true (fun _ _ _ _ _ _ => trivial) trivial hf).bind fun _ _ hb => hb.2
  | closeActiveGate => exact holds_sessionCloseActiveGate hf

theorem sum_ofNat {κ : Type} (size : κ → ℕ) (calls : List κ) :
    (calls.map fun call => UInt32.ofNat (size call)).sum = UInt32.ofNat ((calls.map size).sum) := by
  induction calls with
  | nil => rfl
  | cons call rest ih =>
    rw [map_cons, map_cons, sum_cons, sum_cons, ih, ofNat_add]

section Runs
variable {calls : List QueueCall} {c : Config ℕ ConsoleState ConsoleReply}

section
variable (cl : QueueRun calls c)
include cl

theorem QueueRun.kept : Kept c.shared := by
  obtain ⟨-, run⟩ := cl.runWithin (by decide)
  have hs : Safe (consoleRules False) c := by
    refine RunWithin.safe ?_ kept_reset (fun i => ⟨nofun, False.elim⟩) run
    rintro i s p ⟨call, rfl⟩ - ⟨hf, -⟩
    exact (holds_program call hf).mono fun _ _ hf => ⟨hf, False.elim⟩
  exact hs.inv

theorem QueueRun.published : Published c.shared := by
  obtain ⟨-, run⟩ := cl.runWithin (by decide)
  have hs : Published reset := ⟨rfl, fun m => by cases m <;> rfl⟩
  have hsa : Safe (Rules.ofInvariant Published) c := by
    refine RunWithin.safe ?_ hs (fun _ => trivial) (run.mono fun _ _ => trivial)
    rintro i s p ⟨call, rfl⟩ - -
    exact publishes_program i call s
  exact hsa.inv

/-- Fewer bytes than a 32-bit counter can hold are queued. -/
theorem QueueRun.total_toNat (m : Measure) : (m.total c.shared.ring.toList).toNat =
      (c.shared.ring.toList.map fun r => m.one r.data.length).sum := by
  have hk := QueueRun.kept cl
  have he : ∀ size ∈ c.shared.ring.toList.map fun r => m.one r.data.length,
      size ≤ recordMax := by
    intro size mem
    obtain ⟨r, hq, rfl⟩ := mem_map.mp mem
    have hs := (hk.records r (hk.ring_mem hq)).2.2
    cases m with
    | records => exact Nat.le_of_ble_eq_true rfl
    | bytes => exact hs
  have hb := sum_le_card_nsmul _ _ he
  have hc := c.shared.ring.count_le
  rw [length_map, Ring.length_toList, smul_eq_mul] at hb
  exact toNat_ofNat_of_lt' (by simp only [queueSlots, recordMax, UInt32.size] at *; omega)

/-- The queue is in generation order, and between calls everything offered is sent,
queued or counted as dropped, with the depth of the ring published. -/
theorem queue_conserves : c.shared.ring.toList.Pairwise (·.generation ≤ ·.generation) ∧
    ((∀ i, c.running i = pure ()) → ∀ m : Measure,
      UInt32.ofNat ((calls.map fun call => m.of call.size).sum) =
        c.shared.stats m.sent + c.shared.stats m.queued +
          (c.shared.stats (m.dropped .disconnected) + c.shared.stats (m.dropped .contention) +
            c.shared.stats (m.dropped .full) + c.shared.stats (m.dropped .stale)) ∧
      (c.shared.stats m.queued).toNat =
        (c.shared.ring.toList.map fun record => m.one record.data.length).sum) := by
  have hk := QueueRun.kept cl
  have hp := QueueRun.published cl
  refine ⟨hk.ordered.sublist hk.queue.sublist, fun hq m => ⟨?_, ?_⟩⟩
  · have hs := cl.settled (pays_program m) hq
    have hn : accounted m reset = 0 := by cases m <;> rfl
    rw [hn, zero_add, sum_ofNat, accounted, ← hp.depth m] at hs
    rw [← hs]
    simp only [Measure.outflow, map_cons, map_nil, sum_cons, sum_nil, add_zero]
    abel
  · rw [hp.depth]
    exact QueueRun.total_toNat cl m

end

/-- The locks are free. -/
def free : ConsoleReply := ⟨true, .complete, 0, 0⟩

/-- A record is sent, one is dropped as stale by a close, and one finds no session. -/
def threeCaptures : List (ℕ × QueueCall × List ConsoleReply) :=
  [(0, .sessionOpen, List.replicate 11 free),
    (1, .capture (some [104, 105]), List.replicate 7 free),
    (0, .commitSent 1 1, List.replicate 7 free), (2, .capture (some [33]), List.replicate 7 free),
    (0, .sessionClose 1, List.replicate 6 free), (1, .capture (some [10]), List.replicate 3 free)]

theorem queue_conserves_threeCaptures : ∃ c : Config ℕ ConsoleState ConsoleReply,
    c.shared.stats .sentBytes = 2 ∧ c.shared.stats .droppedStaleBytes = 1 ∧
    c.shared.stats .droppedDisconnectedBytes = 1 ∧
    c.shared.ring.toList.Pairwise (·.generation ≤ ·.generation) ∧
    UInt32.ofNat (2 + 1 + 1) = c.shared.stats .sentBytes + c.shared.stats .queuedBytes +
      (c.shared.stats .droppedDisconnectedBytes + c.shared.stats .droppedContentionBytes +
        c.shared.stats .droppedFullBytes + c.shared.stats .droppedStaleBytes) := by
  have he : (serve QueueCall.program (fun s => s.opened < 2 ^ 31) threeCaptures reset).map
      (fun s => (s.stats .sentBytes, s.stats .droppedStaleBytes,
        s.stats .droppedDisconnectedBytes)) = some (2, 1, 1) := by decide +kernel
  obtain ⟨s, hs, hco⟩ := Option.map_eq_some_iff.mp he
  obtain ⟨hse, hst, hd⟩ : s.stats .sentBytes = 2 ∧ s.stats .droppedStaleBytes = 1 ∧
      s.stats .droppedDisconnectedBytes = 1 := by simpa using hco
  have run : QueueRun (threeCaptures.map (·.2.1)) ⟨s, fun _ => pure ()⟩ := Called.serve .init hs
  obtain ⟨ho, hc⟩ := queue_conserves run
  exact ⟨_, hse, hst, hd, ho, (hc (fun _ => rfl) .bytes).1⟩

end Runs

end VitaDebugger.ConsoleAccounting
