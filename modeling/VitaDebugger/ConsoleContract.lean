import VitaDebugger.ConsoleQueue
import VitaDebugger.RelyGuarantee

/-! What the users of the console queue promise each other. The queue is the tail of all
that was ever accepted, in generation order; its lock keeps it still, and the lifecycle
lock keeps the session's generation. Where the transport has its session to itself, it
has sent a first part of its own generation and the queue holds the rest. -/

namespace VitaDebugger.ConsoleContract
open AtomicProgram RelyGuarantee Rules ConsoleFrame RingQueue ConsoleQueue List Function Nat UInt32
open ConsoleState

def ofGeneration (generation : UInt32) (records : List Record) : List Record :=
  records.filter (·.generation = generation)

@[simp] theorem ofGeneration_append (generation : UInt32) (first second : List Record) :
    ofGeneration generation (first ++ second) =
      ofGeneration generation first ++ ofGeneration generation second :=
  filter_append ..

/-! Session words. -/

theorem toNat_generationOf (session : UInt32) :
    (generationOf session).toNat = session.toNat % 2 ^ 31 := by
  exact and_two_pow_sub_one_eq_mod session.toNat 31

@[simp] theorem generationOf_idem (session : UInt32) :
    generationOf (generationOf session) = generationOf session := by
  apply UInt32.toNat_inj.mp
  simp only [toNat_generationOf, mod_mod]

@[simp] theorem generationOf_openSession (generation : UInt32) :
    generationOf (openSession generation) = generationOf generation := by
  apply UInt32.toNat_inj.mp
  rw [toNat_generationOf, toNat_generationOf, openSession, UInt32.toNat_or, or_mod_two_pow]
  exact or_zero _

variable {generation : UInt32}

theorem generationOf_of_lt (hs : generation.toNat < 2 ^ 31) :
    generationOf generation = generation := by
  apply UInt32.toNat_inj.mp
  rw [toNat_generationOf, mod_eq_of_lt hs]

theorem toNat_nextGeneration {old : UInt32} (hs : old.toNat + 1 < 2 ^ 31) :
    (nextGeneration old).toNat = old.toNat + 1 := by
  have sum : (old + 1).toNat = old.toNat + 1 := by
    exact mod_eq_of_lt (by change old.toNat + 1 < _; omega)
  have hk : generationOf (old + 1) = old + 1 := generationOf_of_lt (by omega)
  have hn : old + 1 ≠ 0 := fun hz => by rw [hz] at sum; simp at sum
  change (if generationOf (old + 1) = 0 then 1 else generationOf (old + 1)).toNat = _
  rw [hk, if_neg hn, sum]

/-! The work done under the queue lock, seen on the list of queued records. -/

theorem ofGeneration_dropWhile (generation : UInt32) (records : List Record) :
    ofGeneration generation (records.dropWhile (·.generation ≠ generation)) =
      ofGeneration generation records := by
  induction records with
  | nil => rfl
  | cons r rest ih =>
    by_cases hs : r.generation = generation
    · simp [hs]
    · simpa [ofGeneration, hs] using ih

/-- Everything the invariant reads beside the queue is as it was. -/
structure Framed (s t : ConsoleState) : Prop where
  session : t.session = s.session
  accepted : t.accepted = s.accepted
  captured : t.captured = s.captured
  current : t.current = s.current
  past : t.past = s.past
  opened : t.opened = s.opened
  generation : t.transport.generation = s.transport.generation

/-- Only the queue and the counters differ. -/
structure Requeued (s t : ConsoleState) : Prop where
  framed : Framed s t
  queueLock : t.queueLock = s.queueLock
  lifecycleLock : t.lifecycleLock = s.lifecycleLock
  transport : t.transport = s.transport

theorem Framed.refl (s : ConsoleState) : Framed s s := ⟨rfl, rfl, rfl, rfl, rfl, rfl, rfl⟩

variable {s t u : ConsoleState}

theorem Framed.trans {s t : ConsoleState} (hf : Framed s t) (hs : Framed t u) : Framed s u where
  session := hs.session.trans hf.session
  accepted := hs.accepted.trans hf.accepted
  captured := hs.captured.trans hf.captured
  current := hs.current.trans hf.current
  past := hs.past.trans hf.past
  opened := hs.opened.trans hf.opened
  generation := hs.generation.trans hf.generation

theorem Requeued.refl (s : ConsoleState) : Requeued s s := ⟨.refl s, rfl, rfl, rfl⟩

theorem Requeued.trans (hf : Requeued s t) (hs : Requeued t u) : Requeued s u :=
  ⟨hf.framed.trans hs.framed, hs.queueLock.trans hf.queueLock,
    hs.lifecycleLock.trans hf.lifecycleLock, hs.transport.trans hf.transport⟩

theorem requeued_with (s : ConsoleState) (ring : Ring Record queueSlots) (bytes : UInt32)
    (nextSequence : UInt64) (stats : Counter → UInt32) :
    Requeued s { s with ring, bytes, nextSequence, stats } :=
  ⟨⟨rfl, rfl, rfl, rfl, rfl, rfl, rfl⟩, rfl, rfl, rfl⟩

theorem dropHeadAsStale_requeued (s : ConsoleState) : Requeued s s.dropHeadAsStale := by
  unfold dropHeadAsStale
  split
  · exact requeued_with s _ _ _ _
  · exact .refl s

theorem dropHeadAsStale_toList (s : ConsoleState) :
    s.dropHeadAsStale.ring.toList = s.ring.toList.tail := by
  unfold dropHeadAsStale
  split
  · next hf => exact Ring.toList_pop s.ring hf
  · next he =>
    have nil : s.ring.toList = [] := Ring.toList_eq_nil.mpr (by omega)
    rw [nil, tail_nil]

theorem purgeWhile_spec (unwanted : Record → Bool) (f : ℕ) (s : ConsoleState)
    (he : s.ring.toList.length ≤ f) :
    Requeued s (s.purgeWhile unwanted f) ∧
      (s.purgeWhile unwanted f).ring.toList = s.ring.toList.dropWhile unwanted := by
  induction f generalizing s with
  | zero =>
    have nil : s.ring.toList = [] := length_eq_zero_iff.mp (by omega)
    exact ⟨.refl s, by rw [nil]; exact nil⟩
  | succ f ih =>
    have tail := dropHeadAsStale_toList s
    cases front : s.ring.toList with
    | nil =>
      have none : s.ring.front? = none := by rw [Ring.front?_eq, front]; rfl
      simp only [purgeWhile, none]
      exact ⟨.refl s, front⟩
    | cons r rest =>
      have some : s.ring.front? = some r := by rw [Ring.front?_eq, front]; rfl
      rw [front, tail_cons] at tail
      rw [front, length_cons] at he
      simp only [purgeWhile, some]
      split
      · next yes =>
        obtain ⟨same, list⟩ := ih s.dropHeadAsStale (by rw [tail]; omega)
        refine ⟨(dropHeadAsStale_requeued s).trans same, ?_⟩
        rw [list, tail, dropWhile_cons_of_pos yes]
      · next no =>
        refine ⟨.refl s, ?_⟩
        rw [front, dropWhile_cons_of_neg no]

theorem purge_spec (s : ConsoleState) : Requeued s s.purge ∧ s.purge.ring.toList = [] := by
  have hp := purgeWhile_spec (fun _ => true) s.ring.count s (by simp)
  exact ⟨hp.1.trans (requeued_with _ _ _ _ _), rfl⟩

theorem purgeOtherGenerations_spec (s : ConsoleState) (generation : UInt32) :
    Requeued s (s.purgeOtherGenerations generation) ∧
      (s.purgeOtherGenerations generation).ring.toList =
        s.ring.toList.dropWhile (·.generation ≠ generation) := by
  have hp := purgeWhile_spec (·.generation ≠ generation) s.ring.count s (by simp)
  exact ⟨hp.1.trans (requeued_with _ _ _ _ _), hp.2⟩

/-- What a stored record looks like. -/
structure Stored (generation : UInt32) (record : Record) : Prop where
  generation : record.generation = generation
  sequence : record.sequence ≠ 0
  data : record.data.length ≤ recordMax

theorem nextNonzero_ne (sequence : UInt64) : nextNonzero sequence ≠ 0 := by
  unfold nextNonzero
  split
  · decide
  · assumption

/-- The records stored are the data cut into pieces, up to where the queue is full. -/
structure StoredAll (generation : UInt32) (data : Bytes) (s : ConsoleState)
    (result : ConsoleState × List Record × Bytes) : Prop where
  requeued : Requeued s result.1
  list : result.1.ring.toList = s.ring.toList ++ result.2.1
  stored : ∀ record ∈ result.2.1, Stored generation record
  bytes : result.2.1.flatMap (·.data) ++ result.2.2 = data

theorem storeRecords_spec (generation : UInt32) (fuel : ℕ) (d : Bytes)
    (s : ConsoleState) : StoredAll generation d s (s.storeRecords generation fuel d) := by
  induction fuel generalizing d s with
  | zero => exact ⟨.refl s, (append_nil _).symm, nofun, rfl⟩
  | succ fuel ih =>
    simp only [storeRecords]
    split
    · next hr =>
      have ha := ih (d.drop recordMax) { s with
          ring :=
            s.ring.push ⟨generation, nextNonzero s.nextSequence, d.take recordMax⟩ hr.2
          nextSequence := nextNonzero s.nextSequence
          bytes := s.bytes + UInt32.ofNat (d.take recordMax).length }
      refine ⟨(requeued_with s _ _ _ _).trans ha.requeued, ?_, ?_, ?_⟩
      · rw [ha.list, Ring.toList_push, append_assoc]
        rfl
      · intro r mem
        cases mem_cons.mp mem with
        | inl hh => exact hh ▸ ⟨rfl, nextNonzero_ne _, length_take_le _ _⟩
        | inr hl => exact ha.stored r hl
      · simp only [flatMap_cons, append_assoc, ha.bytes, take_append_drop]
    · exact ⟨.refl s, (append_nil _).symm, nofun, rfl⟩

/-! Connections. -/

def whole (write : Write) : Bool := write.sent = write.frame.length

def sentCount (writes : List Write) : ℕ := (writes.filter whole).length

def delivered (writes : List Write) : List Record := ((writes.filter whole).map (·.record)).reverse

/-- Every write is of the first record not sent yet, and none follows a failed one. -/
def Follows (records : List Record) : List Write → Prop
  | [] => True
  | write :: earlier =>
    Follows records earlier ∧ (∀ w ∈ earlier, w.outcome ≠ .failed) ∧
      records[sentCount earlier]? = some write.record ∧
      transportFrameRecord write.record.data = some write.frame

@[simp] theorem delivered_length (ws : List Write) :
    (delivered ws).length = sentCount ws := by simp [delivered, sentCount]

theorem delivered_cons (w : Write) (e : List Write) : delivered (w :: e) =
      delivered e ++ if whole w then [w.record] else [] := by
  by_cases all : whole w <;> simp [delivered, all]

theorem Follows.mono {few many : List Record} (hg : few <+: many) {ws : List Write}
    (hf : Follows few ws) : Follows many ws := by
  induction ws with
  | nil => trivial
  | cons write earlier ih =>
    obtain ⟨hb, hs, hn, hfr⟩ := hf
    refine ⟨ih hb, hs, ?_, hfr⟩
    obtain ⟨rest, rfl⟩ := hg
    rw [List.getElem?_append_left (List.getElem?_eq_some_iff.mp hn).1]
    exact hn

variable {records : List Record}

theorem Follows.delivered {ws : List Write} (hf : Follows records ws) :
    delivered ws <+: records := by
  induction ws with
  | nil => exact nil_prefix
  | cons write earlier ih =>
    obtain ⟨before, -, next, -⟩ := hf
    rw [delivered_cons]
    split
    · obtain ⟨rest, split⟩ := ih before
      rw [← split, List.getElem?_append_right (by simp), delivered_length, Nat.sub_self] at next
      cases rest with
      | nil => cases next
      | cons record rest =>
        cases next
        exact ⟨rest, by rw [← split, append_assoc, singleton_append]⟩
    · rw [append_nil]
      exact ih before

/-! The contract. -/

def queued (generation : UInt32) (s : ConsoleState) : List Record :=
  ofGeneration generation s.ring.toList

structure Kept (s : ConsoleState) : Prop where
  few : s.opened < 2 ^ 31
  counted : (generationOf s.session).toNat = s.opened
  records : ∀ record ∈ s.accepted, record.generation ≤ generationOf s.session ∧
    record.sequence ≠ 0 ∧ record.data.length ≤ recordMax
  ordered : s.accepted.Pairwise (·.generation ≤ ·.generation)
  queue : s.ring.toList <:+ s.accepted
  captured : ∀ g, s.captured g = (ofGeneration g s.accepted).flatMap (·.data)
  follows : ∀ conn ∈ s.current :: s.past,
    Follows (ofGeneration conn.generation s.accepted) conn.writes
  bounded : ∀ conn ∈ s.current :: s.past, conn.generation ≤ generationOf s.session
  apart : (s.current :: s.past).Pairwise fun newer older =>
    newer.generation ≠ 0 → older.generation < newer.generation
  owner : s.current.generation = s.transport.generation

/-- Nothing touches the queue while thread `i` holds its lock, and no session opens
while it holds the lifecycle lock. -/
structure LockKept (i : ℕ) (s t : ConsoleState) : Prop where
  holder : t.queueLock = some i ↔ s.queueLock = some i
  content : s.queueLock = some i → t.ring = s.ring ∧ t.accepted = s.accepted
  keeper : t.lifecycleLock = some i ↔ s.lifecycleLock = some i
  generation : s.lifecycleLock = some i → generationOf t.session = generationOf s.session

/-- What the other threads leave to the transport: at most they add records. -/
structure OwnerKept (s t : ConsoleState) : Prop where
  transport : t.transport = s.transport
  current : t.current = s.current
  past : t.past = s.past
  session : generationOf t.session = generationOf s.session
  grown : ∃ more, t.accepted = s.accepted ++ more ∧
    queued (generationOf s.session) t = queued (generationOf s.session) s ++
      ofGeneration (generationOf s.session) more

/-- The queue holds what was accepted under the generation after the first `k`. -/
structure Rest (generation : UInt32) (k : ℕ) (s : ConsoleState) : Prop where
  session : generationOf s.session = generation
  bound : k ≤ (ofGeneration generation s.accepted).length
  rest : queued generation s = (ofGeneration generation s.accepted).drop k

/-- The transport between two of its calls: all that it has not sent is queued, with
the last record sent in front of it if the commit is outstanding. -/
structure Live (s : ConsoleState) : Prop where
  fresh : s.transport.generation = 0 →
    s.transport.sentUncommittedSequence = 0 ∧ s.current.writes = []
  sound : s.transport.failed = false → ∀ write ∈ s.current.writes, write.outcome ≠ .failed
  synced : s.transport.failed = false → s.transport.generation ≠ 0 →
    s.transport.sentUncommittedSequence = 0 →
      Rest s.transport.generation (sentCount s.current.writes) s
  pending : s.transport.failed = false → s.transport.sentUncommittedSequence ≠ 0 →
    ∃ k, sentCount s.current.writes = k + 1 ∧ Rest s.transport.generation k s

theorem LockKept.refl (i : ℕ) (s : ConsoleState) : LockKept i s s :=
  ⟨Iff.rfl, fun _ => ⟨rfl, rfl⟩, Iff.rfl, fun _ => rfl⟩

theorem LockKept.trans {i : ℕ} (hf : LockKept i s t) (hs : LockKept i t u) : LockKept i s u where
  holder := hs.holder.trans hf.holder
  content hh := by
    obtain ⟨hr, ha⟩ := hf.content hh
    obtain ⟨hr', ha'⟩ := hs.content (hf.holder.mpr hh)
    exact ⟨hr'.trans hr, ha'.trans ha⟩
  keeper := hs.keeper.trans hf.keeper
  generation hh := (hs.generation (hf.keeper.mpr hh)).trans (hf.generation hh)

theorem OwnerKept.refl (s : ConsoleState) : OwnerKept s s :=
  ⟨rfl, rfl, rfl, rfl, [], (append_nil _).symm, (append_nil _).symm⟩

theorem OwnerKept.trans (hf : OwnerKept s t) (hs : OwnerKept t u) : OwnerKept s u where
  transport := hs.transport.trans hf.transport
  current := hs.current.trans hf.current
  past := hs.past.trans hf.past
  session := hs.session.trans hf.session
  grown := by
    obtain ⟨more, ha, hl⟩ := hf.grown
    obtain ⟨m', ha', hl'⟩ := hs.grown
    refine ⟨more ++ m', by rw [ha', ha, append_assoc], ?_⟩
    rw [hf.session] at hl'
    rw [hl', hl, ofGeneration_append, append_assoc]

variable {k : ℕ}

theorem Rest.owner (hr : Rest generation k s) (hk : OwnerKept s t) : Rest generation k t := by
  obtain ⟨more, ha, hl⟩ := hk.grown
  rw [hr.session] at hl
  refine ⟨hk.session.trans hr.session, ?_, ?_⟩
  · have := hr.bound
    rw [ha, ofGeneration_append, length_append]
    omega
  · rw [hl, ha, ofGeneration_append, hr.rest, drop_append_of_le_length hr.bound]

variable {g : UInt32}

theorem Rest.requeued {n : ℕ} (hre : Rest g k s)
    (hr : Requeued s t) (hb : n ≤ (ofGeneration g s.accepted).length)
    (hl : t.ring.toList = (ofGeneration g s.accepted).drop n) : Rest g n t where
  session := by
    rw [hr.framed.session]
    exact hre.session
  bound := by rwa [hr.framed.accepted]
  rest := by
    rw [queued, hl, hr.framed.accepted]
    refine filter_eq_self.mpr fun record mem => ?_
    exact (mem_filter.mp (mem_of_mem_drop mem)).2

theorem Rest.withTransport (hr : Rest g k t)
    (transport : Transport) : Rest g k { t with transport } := ⟨hr.session, hr.bound, hr.rest⟩

theorem Live.owner (hl : Live s) (hk : OwnerKept s t) : Live t := by
  have hst {g : UInt32} {k : ℕ} (hr : Rest g k s) : Rest g k t := hr.owner hk
  cases s
  cases t
  obtain ⟨rfl, rfl, -⟩ := hk
  refine { hl with
    synced := fun hs ho hc => hst (hl.synced hs ho hc)
    pending := fun hs hu => ?_ }
  obtain ⟨k, hco, hr⟩ := hl.pending hs hu
  exact ⟨k, hco, hst hr⟩

/-- As long as the generations do not wrap. Where the session is `owned`, thread 0 is the
transport's and no other thread opens or closes sessions. -/
def consoleRules (owned : Prop) : Rules ℕ ConsoleState where
  within s := s.opened < 2 ^ 31
  inv := Kept
  rely i s t := LockKept i s t ∧ generationOf s.session ≤ generationOf t.session ∧
    (owned → i = 0 → OwnerKept s t)
  guarantee i s t := (∀ j, j ≠ i → LockKept j s t) ∧
    generationOf s.session ≤ generationOf t.session ∧ (owned → i ≠ 0 → OwnerKept s t)
  idle i s := s.queueLock ≠ some i ∧ (owned → i = 0 → Live s)
  refl i s := ⟨.refl i s, UInt32.le_refl _, fun _ _ => .refl s⟩
  trans _ _ _ _ first second :=
    ⟨first.1.trans second.1, UInt32.le_trans first.2.1 second.2.1,
      fun owned zero => (first.2.2 owned zero).trans (second.2.2 owned zero)⟩
  compatible _ j _ _ distinct _ _ own :=
    ⟨own.1 j (Ne.symm distinct), own.2.1,
      fun owned zero => own.2.2 owned fun same => distinct (same.trans zero.symm)⟩
  stable _ _ _ moved idle :=
    ⟨fun held => idle.1 (moved.1.holder.mp held),
      fun owned zero => (idle.2 owned zero).owner (moved.2.2 owned zero)⟩

theorem Kept.framed (hk : Kept s) (hf : Framed s t)
    (queue : t.ring.toList <:+ s.accepted) : Kept t := by
  cases s
  cases t
  obtain ⟨⟨⟩, ⟨⟩, ⟨⟩, ⟨⟩, ⟨⟩, ⟨⟩, hg⟩ := hf
  exact { hk with queue, owner := hk.owner.trans hg.symm }

/-! Assertions of one thread and the accesses that keep them. -/

variable {lock : Option ℕ}

section Accesses
variable {owned : Prop} {i : ℕ} {α : Type} {P : ConsoleState → Prop}

variable (owned i) in
/-- The other threads respect `P`. -/
def Stable (P : ConsoleState → Prop) : Prop := ∀ s t, (consoleRules owned).rely i s t → P s → P t

/-- `P` does not speak of the queue lock. -/
def Blind (P : ConsoleState → Prop) : Prop := ∀ s lock, P s → P { s with queueLock := lock }

theorem Stable.held (hs : Stable owned i P) : Stable owned i fun s => P s ∧ s.queueLock = some i :=
  fun s t hm hb => ⟨hs s t hm hb.1, hm.1.holder.mpr hb.2⟩

theorem Stable.free (hs : Stable owned i P) : Stable owned i fun s => P s ∧ s.queueLock ≠ some i :=
  fun s t hm hb => ⟨hs s t hm hb.1, fun hh => hb.2 (hm.1.holder.mp hh)⟩

theorem other_holder {j : ℕ} {p : Prop} (hh : lock = some i) (ho : j ≠ i)
    (ht : lock = some j) : p :=
  absurd (Option.some.inj (ht.symm.trans hh)) ho

theorem Stable.and {Q : ConsoleState → Prop} (hf : Stable owned i P) (hs : Stable owned i Q) :
    Stable owned i fun s => P s ∧ Q s :=
  fun s t hm hb => ⟨hf s t hm hb.1, hs s t hm hb.2⟩

theorem Blind.and {Q : ConsoleState → Prop} (hf : Blind P) (hs : Blind Q) :
    Blind fun s => P s ∧ Q s :=
  fun s lock hb => ⟨hf s lock hb.1, hs s lock hb.2⟩

/-- The access changes nothing that any thread relies on. -/
structure Calm (s t : ConsoleState) : Prop where
  framed : Framed s t
  ring : t.ring = s.ring
  queueLock : t.queueLock = s.queueLock
  lifecycleLock : t.lifecycleLock = s.lifecycleLock
  transport : t.transport = s.transport

theorem Calm.refl (s : ConsoleState) : Calm s s := ⟨.refl s, rfl, rfl, rfl, rfl⟩

theorem Calm.ownerKept (hc : Calm s t) : OwnerKept s t where
  transport := hc.transport
  current := hc.framed.current
  past := hc.framed.past
  session := by rw [hc.framed.session]
  grown := ⟨[], by simp [hc.framed.accepted], by simp [queued, hc.ring, ofGeneration]⟩

theorem Calm.lockKept (hc : Calm s t) (j : ℕ) : LockKept j s t where
  holder := by rw [hc.queueLock]
  content _ := ⟨hc.ring, hc.framed.accepted⟩
  keeper := by rw [hc.lifecycleLock]
  generation _ := by rw [hc.framed.session]

theorem Calm.later (hc : Calm s t) : generationOf s.session ≤ generationOf t.session := by
  rw [hc.framed.session]
  exact UInt32.le_refl _

theorem guarantee_refl (s : ConsoleState) : (consoleRules owned).guarantee i s s :=
  ⟨fun j _ => .refl j s, UInt32.le_refl _, fun _ _ => .refl s⟩

theorem Calm.rely (hc : Calm s t) (j : ℕ) : (consoleRules owned).rely j s t :=
  ⟨hc.lockKept j, hc.later, fun _ _ => hc.ownerKept⟩

theorem holds_under {f : ConsoleState → ConsoleReply → α × ConsoleState}
    {Q : α → ConsoleState → Prop} (hs : Stable owned i P) (pre : P s)
    (h : ∀ t, Kept t → P t → ∀ w, (f t w).2.opened < 2 ^ 31 → Kept (f t w).2 ∧
      (consoleRules owned).guarantee i t (f t w).2 ∧ Q (f t w).1 (f t w).2) :
    (consoleRules owned).Holds i (Prog.perform f) Q s :=
  fun t hk hm w hi => h t hk (hs s t hm pre) w hi

theorem holds_calm {f : ConsoleState → ConsoleReply → α × ConsoleState}
    {Q : α → ConsoleState → Prop} (hs : Stable owned i P) (pre : P s)
    (hc : ∀ t w, Calm t (f t w).2)
    (hp : ∀ t w, Kept t → P (f t w).2 → Q (f t w).1 (f t w).2) :
    (consoleRules owned).Holds i (Prog.perform f) Q s :=
  holds_under hs pre fun t hk hh w _ =>
    ⟨hk.framed (hc t w).framed ((hc t w).ring ▸ hk.queue),
      ⟨fun j _ => (hc t w).lockKept j, (hc t w).later, fun _ _ => (hc t w).ownerKept⟩,
      hp t w hk (hs t _ ((hc t w).rely i) hh)⟩

theorem holds_loadSession (hs : Stable owned i P) (pre : P s) {Q : UInt32 → ConsoleState → Prop}
    (hp : ∀ t, Kept t → P t → Q t.session t) : (consoleRules owned).Holds i loadSession Q s :=
  holds_calm hs pre (fun t _ => .refl t) fun t _ => hp t

theorem holds_consoleAdd (c : Counter) (a : ℕ) (hs : Stable owned i P) (pre : P s) :
    (consoleRules owned).Holds i (consoleAdd c a) (fun _ t => P t) s :=
  holds_calm hs pre (fun _ _ => ⟨⟨rfl, rfl, rfl, rfl, rfl, rfl, rfl⟩, rfl, rfl, rfl, rfl⟩)
    fun _ _ _ hh => hh

theorem holds_adds (first second : Counter) (a b : ℕ) (hs : Stable owned i P) (pre : P s) :
    (consoleRules owned).Holds i (consoleAdd first a >>= fun _ => consoleAdd second b)
      (fun _ t => P t) s :=
  (holds_consoleAdd first a hs pre).bind fun _ _ hh => holds_consoleAdd second b hs hh

theorem holds_noteDrop (c : DropCause) (size : ℕ) (hs : Stable owned i P) (pre : P s) :
    (consoleRules owned).Holds i (noteDrop c size) (fun _ t => P t) s := by
  rw [noteDrop, holds_ite]
  exact ⟨fun _ => pre, fun _ => holds_adds _ _ _ _ hs pre⟩

theorem holds_noteAccepted (records taken : ℕ) (hs : Stable owned i P) (pre : P s) :
    (consoleRules owned).Holds i (noteAccepted records taken) (fun _ t => P t) s := by
  rw [noteAccepted, holds_ite]
  exact ⟨fun _ => pre, fun _ => holds_adds _ _ _ _ hs pre⟩

theorem Framed.relocked (s : ConsoleState) (lock : Option ℕ) :
    Framed s { s with queueLock := lock } := ⟨rfl, rfl, rfl, rfl, rfl, rfl, rfl⟩

theorem guarantee_relocked (hm : ∀ j, j ≠ i → t.queueLock ≠ some j ∧ lock ≠ some j) :
    (consoleRules owned).guarantee i t { t with queueLock := lock } where
  left j ho := ⟨iff_of_false (hm j ho).2 (hm j ho).1,
    fun hh => absurd hh (hm j ho).1, Iff.rfl, fun _ => rfl⟩
  right := ⟨UInt32.le_refl _, fun _ _ =>
    ⟨rfl, rfl, rfl, rfl, [], (append_nil _).symm, (append_nil _).symm⟩⟩

theorem holds_tryLockQueue (hs : Stable owned i P) (hb : Blind P) (pre : P s)
    (hf : s.queueLock ≠ some i) :
    (consoleRules owned).Holds i (tryLockQueue i) (fun tk t => P t ∧
      (tk = true → t.queueLock = some i) ∧ (tk = false → t.queueLock ≠ some i)) s := by
  refine holds_under hs.free ⟨pre, hf⟩ fun t hk hh w _ => ?_
  by_cases ht : t.queueLock = none ∧ w.locked
  · rw [if_pos ht]
    refine ⟨hk.framed (.relocked t _) hk.queue, guarantee_relocked fun j ho => ?_,
      hb t _ hh.1, fun _ => rfl, nofun⟩
    exact ⟨by simp [ht.1], by simpa using Ne.symm ho⟩
  · rw [if_neg ht]
    exact ⟨hk, guarantee_refl t, hh.1, nofun, fun _ => hh.2⟩

theorem holds_unlockQueue (hs : Stable owned i P) (hb : Blind P) (pre : P s)
    (hhe : s.queueLock = some i) :
    (consoleRules owned).Holds i unlockQueue (fun _ t => P t ∧ t.queueLock ≠ some i) s := by
  refine holds_under hs.held ⟨pre, hhe⟩ fun t hk hh w _ => ?_
  refine ⟨hk.framed (.relocked t _) hk.queue, guarantee_relocked fun j ho => ?_,
    hb t _ hh.1, nofun⟩
  exact ⟨by simpa [hh.2] using Ne.symm ho, nofun⟩

end Accesses

/-! Captures. -/

theorem Kept.ring_mem (hk : Kept s) {r : Record}
    (mem : r ∈ s.ring.toList) : r ∈ s.accepted := hk.queue.subset mem

theorem ofGeneration_eq_nil (ho : ∀ r ∈ records, r.generation ≠ generation) :
    ofGeneration generation records = [] :=
  filter_eq_nil_iff.mpr fun r mem => by simpa using ho r mem

theorem ofGeneration_of_stored (hs : ∀ r ∈ records, Stored generation r) :
    ofGeneration generation records = records :=
  filter_eq_self.mpr fun r mem => by simpa using (hs r mem).generation

/-- A purge for generation `g` spares the newest generation: either it is `g`, or it
has no record yet. -/
theorem ofGeneration_purged {n : UInt32} (le : g ≤ n)
    (low : ∀ r ∈ records, r.generation ≤ g) :
    ofGeneration n (records.dropWhile (·.generation ≠ g)) = ofGeneration n records := by
  by_cases hs : g = n
  · subst hs
    exact ofGeneration_dropWhile g records
  have hn (some : List Record) (sub : some ⊆ records) : ofGeneration n some = [] :=
    ofGeneration_eq_nil fun r mem he =>
      hs (UInt32.le_antisymm le (he ▸ low r (sub mem)))
  rw [hn _ (dropWhile_sublist _).subset, hn _ (List.Subset.refl _)]

/-- In generation order, what a purge leaves is the newest generation. -/
theorem dropWhile_eq_ofGeneration (ho : records.Pairwise (·.generation ≤ ·.generation))
    (low : ∀ r ∈ records, r.generation ≤ g) :
    records.dropWhile (·.generation ≠ g) = ofGeneration g records := by
  induction records with
  | nil => rfl
  | cons r rest ih =>
    obtain ⟨ha, hso⟩ := pairwise_cons.mp ho
    by_cases hs : r.generation = g
    · have all : ofGeneration g rest = rest := filter_eq_self.mpr fun l mem => by
        have le := low l (mem_cons_of_mem r mem)
        have ge := hs ▸ ha l mem
        simpa using UInt32.le_antisymm le ge
      rw [ofGeneration] at all
      simp [ofGeneration, hs, all]
    · have rest := ih hso fun l mem => low l (mem_cons_of_mem r mem)
      simpa [ofGeneration, hs] using rest

theorem purged_toList (hk : Kept s) (hs : generationOf s.session = g) :
    (s.purgeOtherGenerations g).ring.toList = queued g s := by
  rw [(purgeOtherGenerations_spec s g).2]
  refine dropWhile_eq_ofGeneration (hk.ordered.sublist hk.queue.sublist) fun r mem => ?_
  exact hs ▸ (hk.records r (hk.ring_mem mem)).1

/-- The state after a capture stored `new` under generation `g`. -/
structure Captured (g : UInt32) (new : List Record) (s t : ConsoleState) : Prop where
  session : t.session = s.session
  queueLock : t.queueLock = s.queueLock
  lifecycleLock : t.lifecycleLock = s.lifecycleLock
  current : t.current = s.current
  past : t.past = s.past
  opened : t.opened = s.opened
  transport : t.transport = s.transport
  accepted : t.accepted = s.accepted ++ new
  captured : t.captured = update s.captured g
    (s.captured g ++ new.flatMap (·.data))
  list : t.ring.toList = s.ring.toList.dropWhile (·.generation ≠ g) ++ new
  stored : ∀ record ∈ new, Stored g record

theorem captureLocked_captured (g : UInt32) (d : Bytes) (s : ConsoleState) :
    ∃ new, Captured g new s (let purged := s.purgeOtherGenerations g
       let stored := storeRecords g queueSlots d purged
       { stored.1.publishDepth with
         accepted := s.accepted ++ stored.2.1
         captured := update s.captured g
           (s.captured g ++ d.take (d.length - stored.2.2.length)) }) := by
  obtain ⟨purged, hl⟩ := purgeOtherGenerations_spec s g
  have stored := storeRecords_spec g queueSlots d (s.purgeOtherGenerations g)
  have hf := purged.trans stored.requeued
  refine ⟨_, hf.framed.session, hf.queueLock, hf.lifecycleLock, hf.framed.current, hf.framed.past,
    hf.framed.opened, hf.transport, rfl, ?_, stored.list.trans (by rw [hl]), stored.stored⟩
  have hb := stored.bytes
  dsimp only
  congr 2
  generalize (storeRecords g queueSlots d (s.purgeOtherGenerations g)).2 = result
    at hb ⊢
  rw [← hb, List.length_append, Nat.add_sub_cancel, List.take_left]

namespace Captured
variable {new : List Record}

theorem kept (hc : Captured g new s t) (hk : Kept s)
    (low : ∀ r ∈ s.accepted, r.generation ≤ g) (le : g ≤ generationOf s.session) :
    Kept t := by
  cases s
  cases t
  obtain ⟨⟨⟩, -, -, ⟨⟩, ⟨⟩, ⟨⟩, ⟨⟩, rfl, rfl, hl, hs⟩ := hc
  refine { hk with
    records := fun r mem => ?_
    ordered := pairwise_append.mpr ⟨hk.ordered, ?_, fun old hb r ha => ?_⟩
    queue := ?_
    captured := fun generation => ?_
    follows := fun conn mem => (hk.follows conn mem).mono ?_ }
  · cases mem_append.mp mem with
    | inl old => exact hk.records r old
    | inr ha =>
      have hf := hs r ha
      exact ⟨hf.generation ▸ le, hf.sequence, hf.data⟩
  · refine pairwise_of_forall_mem_list fun a hfi b hse => ?_
    rw [(hs a hfi).generation, (hs b hse).generation]
    exact UInt32.le_refl g
  · rw [(hs r ha).generation]
    exact low old hb
  · rw [hl]
    have hsu := (dropWhile_suffix (·.generation ≠ g)).trans hk.queue
    exact (suffix_append_inj_of_length_eq rfl).mpr ⟨hsu, rfl⟩
  · have hb := hk.captured generation
    dsimp only at hb ⊢
    rw [ofGeneration_append, flatMap_append, ← hb]
    by_cases hsa : generation = g
    · subst hsa
      rw [update_self, ofGeneration_of_stored hs]
    have hn : ofGeneration generation new = [] := ofGeneration_eq_nil fun r mem he =>
      hsa (he.symm.trans (hs r mem).generation)
    rw [update_of_ne hsa, hn]
    simp
  · rw [ofGeneration_append]
    exact prefix_append _ _

theorem ownerKept (hc : Captured g new s t) (hk : Kept s)
    (low : ∀ r ∈ s.accepted, r.generation ≤ g) (le : g ≤ generationOf s.session) :
    OwnerKept s t where
  __ := hc
  session := by rw [hc.session]
  grown := by
    refine ⟨new, hc.accepted, ?_⟩
    rw [queued, hc.list, ofGeneration_append,
      ofGeneration_purged le fun r mem => low r (hk.ring_mem mem)]
    rfl

end Captured

section Threads
variable {o : Prop} {i : ℕ}

theorem stable_true : Stable o i fun _ => True := fun _ _ _ _ => trivial

theorem blind_true : Blind fun _ => True := fun _ _ _ => trivial

theorem stable_newest (g : UInt32) : Stable o i fun s => s.queueLock = some i ∧
    (∀ r ∈ s.accepted, r.generation ≤ g) ∧ g ≤ generationOf s.session := by
  rintro s t hm ⟨hh, low, le⟩
  obtain ⟨-, ha⟩ := hm.1.content hh
  exact ⟨hm.1.holder.mpr hh, ha ▸ low, UInt32.le_trans le hm.2.1⟩

theorem holds_captureLocked (g : UInt32) (data : Bytes) (hh : s.queueLock = some i)
    (low : ∀ r ∈ s.accepted, r.generation ≤ g) (le : g ≤ generationOf s.session) :
    (consoleRules o).Holds i (captureLocked g data) (fun _ t => t.queueLock = some i) s := by
  refine holds_under (stable_newest g) ⟨hh, low, le⟩ ?_
  rintro t hk ⟨hh, low, le⟩ w -
  obtain ⟨new, hc⟩ := captureLocked_captured g data t
  refine ⟨hc.kept hk low le, ⟨fun j ho => ?_, ?_, fun _ _ =>
    hc.ownerKept hk low le⟩, hc.queueLock.trans hh⟩
  · exact ⟨by rw [hc.queueLock], other_holder hh ho, by rw [hc.lifecycleLock],
      fun _ => by rw [hc.session]⟩
  · rw [hc.session]
    exact UInt32.le_refl _

theorem holds_capture (d : Bytes) (hf : s.queueLock ≠ some i) :
    (consoleRules o).Holds i (capture i d) (fun _ t => t.queueLock ≠ some i) s := by
  have ho : Stable o i fun s => True ∧ s.queueLock ≠ some i := stable_true.free
  have hd (c : DropCause) (size : ℕ) {t : ConsoleState} (hf : t.queueLock ≠ some i) :
      (consoleRules o).Holds i (noteDrop c size) (fun _ t => t.queueLock ≠ some i) t :=
    (holds_noteDrop c size ho ⟨trivial, hf⟩).mono fun _ _ hhe => hhe.2
  rw [capture, holds_ite]
  refine ⟨fun _ => hf, fun _ => (holds_bind ..).mpr ?_⟩
  refine holds_loadSession ho ⟨trivial, hf⟩ fun t _ ⟨_, hf⟩ => ?_
  rw [holds_ite]
  refine ⟨fun _ => (holds_bind ..).mpr ?_, fun _ => (holds_bind ..).mpr ?_⟩
  · refine (holds_tryLockQueue stable_true blind_true trivial hf).mono ?_
    rintro tk u ⟨-, hh, hf⟩
    cases tk with
    | false => exact (holds_bind ..).mpr (hd .contention d.length (hf rfl))
    | true =>
      refine (holds_bind ..).mpr (holds_loadSession stable_true.held ⟨trivial, hh rfl⟩ ?_)
      rintro v hk ⟨-, hh⟩
      rw [holds_ite]
      constructor
      · intro hs
        have low : ∀ r ∈ v.accepted, r.generation ≤ generationOf t.session :=
          fun r mem => hs ▸ (hk.records r mem).1
        refine (holds_captureLocked _ d hh low
          (hs ▸ UInt32.le_refl _)).bind fun st x hh => (holds_bind ..).mpr ?_
        refine (holds_unlockQueue stable_true blind_true trivial hh).mono ?_
        rintro - y ⟨-, hf⟩
        refine (holds_noteAccepted st.1 st.2
          ho ⟨trivial, hf⟩).bind fun _ z hhe => (holds_bind ..).mpr ?_
        exact hd .full _ hhe.2
      intro _
      refine (holds_unlockQueue stable_true
        blind_true trivial hh).bind fun _ x hhe => (holds_bind ..).mpr ?_
      exact hd .stale d.length hhe.2
  · exact hd .disconnected d.length hf

theorem Kept.regated (hk : Kept s) {session : UInt32}
    (hs : generationOf session = generationOf s.session) : Kept { s with session } where
  __ := hk
  counted := hs ▸ hk.counted
  records := hs ▸ hk.records
  bounded := hs ▸ hk.bounded

theorem guarantee_regated {session : UInt32}
    (hs : generationOf session = generationOf s.session) :
    (consoleRules o).guarantee i s { s with session } where
  left _ _ := ⟨Iff.rfl, fun _ => ⟨rfl, rfl⟩, Iff.rfl, fun _ => hs⟩
  right := ⟨hs ▸ UInt32.le_refl _, fun _ _ =>
    ⟨rfl, rfl, rfl, hs, [], (append_nil _).symm, (append_nil _).symm⟩⟩

theorem holds_sessionCloseActiveGate (hf : s.queueLock ≠ some i) :
    (consoleRules o).Holds i sessionCloseActiveGate (fun _ t => t.queueLock ≠ some i) s := by
  refine holds_under stable_true.free ⟨trivial, hf⟩ fun t hk hh w _ => ?_
  by_cases hg : isOpen t.session
  · simp only [hg, if_true]
    have hs := generationOf_idem t.session
    exact ⟨hk.regated hs, guarantee_regated hs, hh.2⟩
  · simp only [hg]
    exact ⟨hk, guarantee_refl t, hh.2⟩

/-- The holder of the lock may rearrange the queue, and where the session is owned only
its owner may throw records of it away. -/
theorem guarantee_requeued (hr : Requeued s t)
    (hh : s.queueLock = some i) (hm : o → i = 0) :
    (consoleRules o).guarantee i s t where
  left j ho := ⟨by rw [hr.queueLock], other_holder hh ho,
    by rw [hr.lifecycleLock], fun _ => by rw [hr.framed.session]⟩
  right := by
    rw [hr.framed.session]
    exact ⟨UInt32.le_refl _, fun own ha => absurd (hm own) ha⟩

/-! Sessions. -/

/-- `P` speaks of the transport and its connections only. -/
def Private (P : ConsoleState → Prop) : Prop := ∀ s t, t.transport = s.transport →
  t.current = s.current → t.past = s.past → P s → P t

theorem Private.blind {P : ConsoleState → Prop} (ha : Private P) : Blind P :=
  fun s lock => ha s { s with queueLock := lock } rfl rfl rfl

theorem Private.requeued {P : ConsoleState → Prop} (ha : Private P)
    (hr : Requeued s t) : P s → P t :=
  ha s t hr.transport hr.framed.current hr.framed.past

/-- Thread `i` holds the lifecycle lock in a session of generation `old`. -/
structure Opening (i : ℕ) (old : UInt32) (s : ConsoleState) : Prop where
  keeper : s.lifecycleLock = some i
  session : generationOf s.session = old

theorem stable_opening (old : UInt32) : Stable o i (Opening i old) := fun _ _ hm hh =>
  ⟨hm.1.keeper.mpr hh.keeper, (hm.1.generation hh.keeper).trans hh.session⟩

theorem stable_keeper : Stable o i fun s => s.lifecycleLock = some i :=
  fun _ _ hm hh => hm.1.keeper.mpr hh

theorem Kept.relocked (hk : Kept s) (lock : Option ℕ) : Kept { s with lifecycleLock := lock } :=
  hk.framed ⟨rfl, rfl, rfl, rfl, rfl, rfl, rfl⟩ hk.queue

theorem guarantee_rekept (hm : ∀ j, j ≠ i → s.lifecycleLock ≠ some j ∧ lock ≠ some j) :
    (consoleRules o).guarantee i s { s with lifecycleLock := lock } where
  left j ho := ⟨Iff.rfl, fun _ => ⟨rfl, rfl⟩,
    iff_of_false (hm j ho).2 (hm j ho).1, fun _ => rfl⟩
  right := ⟨UInt32.le_refl _, fun _ _ =>
    ⟨rfl, rfl, rfl, rfl, [], (append_nil _).symm, (append_nil _).symm⟩⟩

section Lifecycle
variable {P : ConsoleState → Prop}

theorem holds_tryLockLifecycle (hs : Stable o i P)
    (hb : ∀ s lock, P s → P { s with lifecycleLock := lock }) (pre : P s) :
    (consoleRules o).Holds i (tryLockLifecycle i)
      (fun held t => P t ∧ (held = true → t.lifecycleLock = some i)) s := by
  refine holds_under hs pre fun t hk hh w _ => ?_
  by_cases ht : t.lifecycleLock = none ∧ w.locked
  · rw [if_pos ht]
    refine ⟨hk.relocked _, guarantee_rekept fun j ho => ?_, hb t _ hh, fun _ => rfl⟩
    exact ⟨by simp [ht.1], by simpa using Ne.symm ho⟩
  · rw [if_neg ht]
    exact ⟨hk, guarantee_refl t, hh, nofun⟩

theorem holds_unlockLifecycle (hs : Stable o i P)
    (hb : ∀ s lock, P s → P { s with lifecycleLock := lock }) (pre : P s)
    (hhe : s.lifecycleLock = some i) :
    (consoleRules o).Holds i unlockLifecycle (fun _ t => P t) s := by
  refine holds_under (hs.and stable_keeper) ⟨pre, hhe⟩ fun t hk hh w _ => ?_
  refine ⟨hk.relocked _, guarantee_rekept fun j ho => ?_, hb t _ hh.1⟩
  exact ⟨by simpa [hh.2] using Ne.symm ho, nofun⟩

theorem holds_purgeIfFree (hm : o → i = 0) (hs : Stable o i P) (hb : Blind P)
    (hr : ∀ s t, Requeued s t → P s → P t) (pre : P s) (hf : s.queueLock ≠ some i) :
    (consoleRules o).Holds i (purgeIfFree i) (fun _ t => P t ∧ t.queueLock ≠ some i) s := by
  refine (holds_tryLockQueue hs hb pre hf).bind ?_
  rintro tk t ⟨hhe, hh, hf⟩
  cases tk with
  | false => exact ⟨hhe, hf rfl⟩
  | true =>
    refine (holds_bind ..).mpr (holds_under hs.held ⟨hhe, hh rfl⟩ ?_)
    rintro u hk ⟨hhe, hh⟩ w -
    obtain ⟨hsa, he⟩ := purge_spec u
    refine ⟨hk.framed hsa.framed ?_, guarantee_requeued hsa hh hm, ?_⟩
    · exact nil_suffix
    · exact (holds_bind ..).mpr (holds_unlockQueue hs hb (hr u _ hsa hhe)
        (hsa.queueLock.trans hh))

theorem holds_noteOpened (hs : Stable o i P) (pre : P s) :
    (consoleRules o).Holds i noteOpened (fun _ t => P t) s := by
  refine (holds_consoleAdd _ _ hs pre).bind fun _ t hh => ?_
  refine (holds_bind ..).mpr (holds_calm hs hh (fun t _ => .refl t) ?_)
  intro u w _ hh
  cases ha : u.everOpened with
  | true =>
    simp only [ha, if_true]
    exact holds_consoleAdd _ _ hs hh
  | false =>
    simp only [ha]
    exact holds_calm hs hh
      (fun _ _ => ⟨⟨rfl, rfl, rfl, rfl, rfl, rfl, rfl⟩, rfl, rfl, rfl, rfl⟩) fun _ _ _ hh => hh

/-- The session that follows `s`. -/
def published (s : ConsoleState) : ConsoleState := { s with
    session := openSession (nextGeneration (generationOf s.session))
    opened := s.opened + 1 }

section
variable (kept : Kept s)
include kept

section
variable (ins : s.opened + 1 < 2 ^ 31)
include ins

theorem Kept.nextGeneration : (nextGeneration (generationOf s.session)).toNat = s.opened + 1 := by
  rw [toNat_nextGeneration (by rwa [kept.counted]), kept.counted]

theorem Kept.generationOf_published :
    generationOf (published s).session = ConsoleQueue.nextGeneration (generationOf s.session) := by
  change generationOf (openSession _) = _
  rw [generationOf_openSession, generationOf_of_lt (by rwa [kept.nextGeneration ins])]

theorem Kept.lt_nextGeneration (old : g ≤ generationOf s.session) :
    g < ConsoleQueue.nextGeneration (generationOf s.session) := by
  have hn := kept.nextGeneration ins
  have now := kept.counted
  rw [lt_iff_toNat_lt]
  rw [le_iff_toNat_le] at old
  omega

theorem Kept.published : Kept (published s) where
  __ := kept
  few := ins
  counted := by
    rw [kept.generationOf_published ins, kept.nextGeneration ins]
    rfl
  records r mem := by
    rw [kept.generationOf_published ins]
    obtain ⟨old, hr⟩ := kept.records r mem
    exact ⟨UInt32.le_of_lt (kept.lt_nextGeneration ins old), hr⟩
  bounded conn mem := by
    rw [kept.generationOf_published ins]
    exact UInt32.le_of_lt (kept.lt_nextGeneration ins (kept.bounded conn mem))

theorem Kept.rest_published :
    Rest (ConsoleQueue.nextGeneration (generationOf s.session)) 0
      (ConsoleContract.published s) where
  session := kept.generationOf_published ins
  bound := zero_le _
  rest := by
    have hn (records : List Record) (sub : records ⊆ s.accepted) :
        ofGeneration (ConsoleQueue.nextGeneration (generationOf s.session)) records = [] :=
      ofGeneration_eq_nil fun r mem he => by
        have old := kept.lt_nextGeneration ins (kept.records r (sub mem)).1
        exact absurd (he ▸ old) (UInt32.lt_irrefl _)
    change ofGeneration _ s.ring.toList = (ofGeneration _ s.accepted).drop 0
    rw [hn _ kept.queue.subset, hn _ (List.Subset.refl _), drop_nil]

theorem guarantee_published (hh : s.lifecycleLock = some i) (hm : o → i = 0) :
    (consoleRules o).guarantee i s (published s) where
  left j ho := ⟨Iff.rfl, fun _ => ⟨rfl, rfl⟩, Iff.rfl, other_holder hh ho⟩
  right := by
    rw [kept.generationOf_published ins]
    exact ⟨UInt32.le_of_lt (kept.lt_nextGeneration ins (UInt32.le_refl _)),
      fun own ha => absurd (hm own) ha⟩

end

end

/-- A call that opens a session, with what its thread learns about the new one. -/
theorem holds_sessionOpen {Q : UInt32 → ConsoleState → Prop} (hm : o → i = 0)
    (hst : Stable o i P) (ha : Private P) (haf : ∀ g, Stable o i (Q g))
    (hbl : ∀ g s lock, Q g s → Q g { s with lifecycleLock := lock })
    (hop : ∀ g t, P t → Rest g 0 t → g ≠ 0 →
      (∀ conn ∈ t.current :: t.past, conn.generation < g) → Q g t)
    (pre : P s) (hf : s.queueLock ≠ some i) :
    (consoleRules o).Holds i (sessionOpen i)
      (fun g t => t.queueLock ≠ some i ∧ (g = 0 → P t) ∧ (g ≠ 0 → Q g t)) s := by
  refine (holds_tryLockLifecycle hst.free
    (fun s lock hb => ⟨ha s _ rfl rfl rfl hb.1, hb.2⟩) ⟨pre, hf⟩).bind ?_
  rintro held t ⟨⟨hh, hf⟩, hk⟩
  cases held with
  | false => exact ⟨hf, fun _ => hh, fun hn => absurd rfl hn⟩
  | true =>
    refine (holds_bind ..).mpr (holds_loadSession (hst.and stable_keeper).free
      ⟨⟨hh, hk rfl⟩, hf⟩ ?_)
    rintro u - ⟨⟨hh, hk⟩, hf⟩
    let old := generationOf u.session
    have ho : Stable o i fun s => P s ∧ Opening i old s := hst.and (stable_opening old)
    have hu : Blind fun s => P s ∧ Opening i old s :=
      ha.blind.and fun _ _ hh => ⟨hh.keeper, hh.session⟩
    refine (holds_bind ..).mpr (holds_under ho.free ⟨⟨hh, hk, rfl⟩, hf⟩ ?_)
    rintro v hke ⟨⟨hh, hk, hs⟩, hf⟩ w -
    have hsa : generationOf (generationOf u.session) = generationOf v.session := by
      rw [generationOf_idem, hs]
    refine ⟨hke.regated hsa, guarantee_regated hsa, ?_⟩
    refine Holds.bind (holds_purgeIfFree hm ho hu ?_
      ⟨ha v _ rfl rfl rfl hh, hk, generationOf_idem _⟩ hf) ?_
    · rintro x y hsa ⟨hh, hk, hs⟩
      refine ⟨ha.requeued hsa hh, hsa.lifecycleLock.trans hk, ?_⟩
      rw [hsa.framed.session, hs]
    rintro - x ⟨hh, hf⟩
    refine (holds_noteOpened ho.free ⟨hh, hf⟩).bind ?_
    rintro - y ⟨hh, hf⟩
    refine (holds_bind ..).mpr (holds_under ho.free ⟨hh, hf⟩ ?_)
    rintro z hke ⟨⟨hh, hk, hs⟩, hf⟩ w hi
    have hn : ConsoleQueue.nextGeneration (generationOf z.session) ≠ 0 := fun hz => by
      have hne := hke.nextGeneration hi
      rw [hz] at hne
      exact absurd hne (succ_ne_zero _).symm
    have new := hop _ _ (ha z (published z) rfl rfl rfl hh) (hke.rest_published hi)
      hn fun conn mem => hke.lt_nextGeneration hi (hke.bounded conn mem)
    have hk' := hke.published hi
    have own : (consoleRules o).guarantee i z (published z) :=
      guarantee_published hke hi hk hm
    simp only [published, hs, old] at new hk' own hn
    refine ⟨hk', own, (holds_unlockLifecycle
      (haf _).free (fun s lock hb => ⟨hbl _ s lock hb.1, hb.2⟩) ⟨new, hf⟩ hk).bind ?_⟩
    exact fun _ _ ⟨new, hf⟩ => ⟨hf, fun hz => absurd hz hn, fun _ => new⟩

theorem holds_closeGate (g : UInt32) (hst : Stable o i P)
    (hr : ∀ s session, P s → P { s with session }) (pre : P s) :
    (consoleRules o).Holds i (closeGate g) (fun _ t => P t) s := by
  refine holds_under hst pre fun t hk hh w _ => ?_
  have hi : Kept t ∧ (consoleRules o).guarantee i t t ∧ P t := ⟨hk, guarantee_refl t, hh⟩
  by_cases hc : t.session = g
  · rw [if_pos hc]
    exact hi
  rw [if_neg hc]
  by_cases hg : t.session = openSession g
  · rw [if_pos hg]
    have hs : generationOf g = generationOf t.session := by
      rw [hg, generationOf_openSession]
    exact ⟨hk.regated hs, guarantee_regated hs, hr t _ hh⟩
  · rw [if_neg hg]
    exact hi

theorem holds_sessionClose (g : UInt32) (hm : o → i = 0) (hs : Stable o i P)
    (ha : Private P) (pre : P s) (hf : s.queueLock ≠ some i) :
    (consoleRules o).Holds i (sessionClose i g) (fun _ t => P t ∧ t.queueLock ≠ some i) s := by
  rw [sessionClose, holds_ite]
  refine ⟨fun _ => (holds_bind ..).mpr ?_, fun _ => ⟨pre, hf⟩⟩
  refine (holds_closeGate g hs.free
    (fun s _ hb => ⟨ha s _ rfl rfl rfl hb.1, hb.2⟩) ⟨pre, hf⟩).mono ?_
  rintro c t ⟨hh, hf⟩
  cases c with
  | false => exact ⟨hh, hf⟩
  | true =>
    refine (holds_tryLockLifecycle hs.free
      (fun s lock hb => ⟨ha s _ rfl rfl rfl hb.1, hb.2⟩) ⟨hh, hf⟩).bind ?_
    rintro held u ⟨⟨hh, hf⟩, hk⟩
    cases held with
    | false => exact ⟨hh, hf⟩
    | true =>
      have hp := holds_purgeIfFree hm (hs.and stable_keeper)
        (ha.blind.and fun _ _ held => held)
        (fun x y hsa hb => ⟨ha.requeued hsa hb.1, hsa.lifecycleLock.trans hb.2⟩)
        ⟨hh, hk rfl⟩ hf
      refine hp.bind ?_
      rintro done v ⟨⟨hh, hk⟩, hf⟩
      exact (holds_bind ..).mpr (holds_unlockLifecycle hs.free
        (fun s lock hb => ⟨ha s _ rfl rfl rfl hb.1, hb.2⟩) ⟨hh, hf⟩ hk)

theorem holds_peek {Q : Option Record → ConsoleState → Prop} (g : UInt32)
    (hs : Stable o i P) (hb : Blind P) (ha : ∀ hd, Stable o i (Q hd))
    (hu : ∀ hd, Blind (Q hd)) (hr : ∀ t, P t → Q none t)
    (hl : ∀ t, P t → t.queueLock = some i → (consoleRules o).Holds i (peekLocked g)
      (fun hd u => Q hd u ∧ u.queueLock = some i) t)
    (pre : P s) (hf : s.queueLock ≠ some i) :
    (consoleRules o).Holds i (peek i g)
      (fun p t => Q p.2 t ∧ t.queueLock ≠ some i) s := by
  rw [peek, holds_ite]
  refine ⟨fun _ => (holds_bind ..).mpr ?_, fun _ => ⟨hr s pre, hf⟩⟩
  refine holds_loadSession hs.free ⟨pre, hf⟩ ?_
  rintro t - ⟨hh, hf⟩
  rw [holds_ite]
  refine ⟨fun _ => (holds_bind ..).mpr ?_, fun _ => ⟨hr t hh, hf⟩⟩
  refine (holds_tryLockQueue hs hb hh hf).mono ?_
  rintro tk u ⟨hh, hhe, hf⟩
  cases tk with
  | false => exact ⟨hr u hh, hf rfl⟩
  | true =>
    refine (holds_bind ..).mpr (holds_loadSession hs.held ⟨hh, hhe rfl⟩ ?_)
    rintro v - ⟨hh, hhe⟩
    rw [holds_ite]
    constructor
    · intro _
      refine (hl v hh hhe).bind ?_
      rintro hd x ⟨hk, hhe⟩
      exact (holds_bind ..).mpr (holds_unlockQueue (ha hd) (hu hd) hk hhe)
    · intro _
      exact (holds_bind ..).mpr (holds_unlockQueue (ha none) (hu none) (hr v hh) hhe)

theorem holds_commitSent {Q : Bool → ConsoleState → Prop} (g : UInt32) (sequence : UInt64)
    (hs : Stable o i P) (hb : Blind P) (ha : ∀ r, Stable o i (Q r))
    (hu : ∀ r, Blind (Q r)) (hr : ∀ t, P t → Q false t)
    (hl : ∀ t, P t → t.queueLock = some i →
      (consoleRules o).Holds i (commitLocked g sequence)
        (fun r u => Q r.isSome u ∧ u.queueLock = some i) t)
    (pre : P s) (hf : s.queueLock ≠ some i) :
    (consoleRules o).Holds i (commitSent i g sequence)
      (fun rs t => Q (rs = .ready) t ∧ t.queueLock ≠ some i) s := by
  rw [commitSent, holds_ite]
  refine ⟨fun _ => (holds_bind ..).mpr ?_, fun _ => ⟨hr s pre, hf⟩⟩
  refine holds_loadSession hs.free ⟨pre, hf⟩ ?_
  rintro t - ⟨hh, hf⟩
  rw [holds_ite]
  refine ⟨fun _ => (holds_bind ..).mpr ?_, fun _ => ⟨hr t hh, hf⟩⟩
  refine (holds_tryLockQueue hs hb hh hf).mono ?_
  rintro tk u ⟨hh, hhe, hf⟩
  cases tk with
  | false => exact ⟨hr u hh, hf rfl⟩
  | true =>
    refine (holds_bind ..).mpr (holds_loadSession hs.held ⟨hh, hhe rfl⟩ ?_)
    rintro v - ⟨hh, hhe⟩
    rw [holds_ite]
    constructor
    · intro _
      refine (hl v hh hhe).bind ?_
      rintro r x ⟨hk, hhe⟩
      refine (holds_unlockQueue (ha _) (hu _) hk hhe).bind ?_
      rintro - y ⟨hk, hf⟩
      cases r with
      | none => exact ⟨hk, hf⟩
      | some size => exact (holds_bind ..).mpr (holds_adds _ _ _ _ (ha _).free ⟨hk, hf⟩)
    · intro _
      exact (holds_bind ..).mpr
        (holds_unlockQueue (ha false) (hu false) (hr v hh) hhe)

end Lifecycle

end Threads

theorem kept_reset : Kept reset where
  few := by decide
  counted := rfl
  records := nofun
  ordered := .nil
  queue := suffix_refl []
  captured _ := rfl
  follows conn mem := by
    obtain rfl := mem_singleton.mp mem
    trivial
  bounded conn mem := by
    obtain rfl := mem_singleton.mp mem
    exact UInt32.zero_le
  apart := pairwise_singleton _ _
  owner := rfl

end VitaDebugger.ConsoleContract
