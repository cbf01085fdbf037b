import VitaDebugger.ConsoleContract

/-! Every record accepted under a session is sent on that session's connection at most
once and in order: the transport has sent a first part of its own generation and the
queue holds the rest. -/

namespace VitaDebugger.ConsoleDelivery
open AtomicProgram RelyGuarantee Rules ConsoleFrame RingQueue ConsoleQueue ConsoleContract List

/-! The transport's own thread. -/

/-- The transport and its connections are these. -/
structure At (transport : Transport) (current : Connection) (past : List Connection)
    (s : ConsoleState) : Prop where
  transport : s.transport = transport
  current : s.current = current
  past : s.past = past

variable {t : ConsoleState} {record : Record}

section Transport
variable {s : ConsoleState} {T : Transport} {C : Connection} {B : List Connection} {g : UInt32}
  {k : ℕ} {P : ConsoleState → Prop}

theorem stable_at : Stable True 0 (At T C B) := fun _ _ hm hh =>
  ⟨(hm.2.2 trivial rfl).transport.trans hh.transport, (hm.2.2 trivial rfl).current.trans hh.current,
    (hm.2.2 trivial rfl).past.trans hh.past⟩

theorem stable_rest : Stable True 0 (Rest g k) := fun _ _ hm hr => hr.owner (hm.2.2 trivial rfl)

theorem blind_at : Blind (At T C B) := fun _ _ hh => ⟨hh.transport, hh.current, hh.past⟩

theorem blind_rest : Blind (Rest g k) := fun _ _ hr => ⟨hr.session, hr.bound, hr.rest⟩

theorem stable_sending : Stable True 0 fun s => At T C B s ∧ Rest g k s := stable_at.and stable_rest

theorem blind_sending : Blind fun s => At T C B s ∧ Rest g k s := blind_at.and blind_rest

theorem At.requeued (hh : At T C B s) (hr : Requeued s t) : At T C B t :=
  ⟨hr.transport.trans hh.transport, hr.framed.current.trans hh.current,
    hr.framed.past.trans hh.past⟩

/-- The record in hand is the first one not sent. -/
def Next (g : UInt32) (k : ℕ) (record : Record) (s : ConsoleState) : Prop :=
  (ofGeneration g s.accepted)[k]? = some record

theorem stable_next : Stable True 0 (Next g k record) := by
  intro s t hm hn
  obtain ⟨more, ha, -⟩ := (hm.2.2 trivial rfl).grown
  rw [Next, ha, ofGeneration_append, List.getElem?_append_left (List.getElem?_eq_some_iff.mp hn).1]
  exact hn

theorem purged_rest (hk : Kept s) (hr : Rest g k s) :
    (s.purgeOtherGenerations g).ring.toList = (ofGeneration g s.accepted).drop k ∧
      (s.purgeOtherGenerations g).ring.toList <:+ s.accepted := by
  refine ⟨(purged_toList hk hr.session).trans hr.rest, ?_⟩
  rw [(purgeOtherGenerations_spec s g).2]
  exact (dropWhile_suffix _).trans hk.queue

theorem holds_peekLocked (hhe : At T C B s ∧ Rest g k s) (hh : s.queueLock = some 0) :
    (consoleRules True).Holds 0 (peekLocked g) (fun head t => (At T C B t ∧ Rest g k t) ∧
      t.queueLock = some 0 ∧ head = (ofGeneration g t.accepted)[k]?) s := by
  refine holds_under stable_sending.held ⟨hhe, hh⟩ ?_
  rintro t hk ⟨⟨hhe, hre⟩, hh⟩ w -
  have hr := (purgeOtherGenerations_spec t g).1
  obtain ⟨hl, hs⟩ := purged_rest hk hre
  refine ⟨hk.framed hr.framed hs, guarantee_requeued hr hh fun _ => rfl,
    ⟨hhe.requeued hr, hre.requeued hr hre.bound hl⟩,
    hr.queueLock.trans hh, ?_⟩
  rw [Ring.front?_eq, hl, List.head?_drop, hr.framed.accepted]

theorem holds_peekOwn (hh : At T C B s ∧ Rest g k s) (hf : s.queueLock ≠ some 0) :
    (consoleRules True).Holds 0 (peek 0 g) (fun p t => ((At T C B t ∧ Rest g k t) ∧
      ∀ record, p.2 = some record → Next g k record t) ∧ t.queueLock ≠ some 0) s := by
  refine holds_peek (Q := fun hd t => (At T C B t ∧ Rest g k t) ∧
    ∀ record, hd = some record → Next g k record t) g stable_sending blind_sending ?_ ?_ ?_ ?_
    hh hf
  · exact fun hd => stable_sending.and fun s t hm hk record hs =>
      stable_next s t hm (hk record hs)
  · exact fun hd => blind_sending.and fun _ _ hk => hk
  · exact fun t hh => ⟨hh, nofun⟩
  · intro t hh hhe
    refine (holds_peekLocked hh hhe).mono ?_
    exact fun hd u ⟨hh, hhe, hn⟩ => ⟨⟨hh, fun record hs => hn.symm.trans hs⟩, hhe⟩

theorem holds_commitLocked (sequence : UInt64) (hhe : At T C B s ∧ Rest g k s)
    (hh : s.queueLock = some 0) :
    (consoleRules True).Holds 0 (commitLocked g sequence) (fun removed t => t.queueLock = some 0 ∧
      At T C B t ∧ Rest g (if removed.isSome then k + 1 else k) t) s := by
  refine holds_under stable_sending.held ⟨hhe, hh⟩ ?_
  rintro t hk ⟨⟨hhe, hr⟩, hh⟩ w -
  have hp := (purgeOtherGenerations_spec t g).1
  obtain ⟨hl, hs⟩ := purged_rest hk hr
  dsimp only
  split
  · next hf =>
    have removed : Requeued t ((t.purgeOtherGenerations g).removeHead hf.1).publishDepth :=
      hp.trans (requeued_with _ _ _ _ _)
    have ht : ((t.purgeOtherGenerations g).removeHead hf.1).publishDepth.ring.toList =
        (t.purgeOtherGenerations g).ring.toList.tail := Ring.toList_pop _ hf.1
    have hsi := hf.1
    rw [← Ring.length_toList, hl, length_drop] at hsi
    have ha := hr.requeued (n := k + 1) removed (by omega) (by
      rw [ht, hl, tail_drop])
    refine ⟨hk.framed removed.framed ?_, guarantee_requeued removed hh fun _ => rfl,
      removed.queueLock.trans hh, hhe.requeued removed, ha⟩
    rw [ht]
    exact (tail_suffix _).trans hs
  · exact ⟨hk.framed hp.framed hs, guarantee_requeued hp hh fun _ => rfl,
      hp.queueLock.trans hh, hhe.requeued hp, hr.requeued hp hr.bound hl⟩

theorem holds_commitOwn (sequence : UInt64) (hh : At T C B s ∧ Rest g k s)
    (hf : s.queueLock ≠ some 0) :
    (consoleRules True).Holds 0 (commitSent 0 g sequence) (fun result t =>
      (At T C B t ∧ Rest g (if result = .ready then k + 1 else k) t) ∧ t.queueLock ≠ some 0) s := by
  have hs := holds_commitSent
    (Q := fun r t => At T C B t ∧ Rest g (if r then k + 1 else k) t) g sequence
    stable_sending blind_sending (fun _ => stable_sending) (fun _ => blind_sending)
    (fun t hh => hh) (fun t hh hhe => ?_) hh hf
  · simpa only [decide_eq_true_eq] using hs
  · refine (holds_commitLocked sequence hh hhe).mono ?_
    exact fun r u ⟨hhe, hh⟩ => ⟨hh, hhe⟩

theorem guarantee_own (s : ConsoleState) (T : Transport) (C : Connection) (B : List Connection) :
    (consoleRules True).guarantee 0 s { s with transport := T, current := C, past := B } :=
  ⟨fun _ _ => ⟨Iff.rfl, fun _ => ⟨rfl, rfl⟩, Iff.rfl, fun _ => rfl⟩, UInt32.le_refl _,
    fun _ ha => absurd rfl ha⟩

theorem holds_onTransport {f : Transport → Transport} {Q : Unit → ConsoleState → Prop}
    (hg : (f T).generation = T.generation) (hs : Stable True 0 P) (hh : At T C B s)
    (pre : P s) (hf : s.queueLock ≠ some 0)
    (hp : ∀ t, P t → At T C B t → t.queueLock ≠ some 0 → Q () { t with transport := f T }) :
    (consoleRules True).Holds 0 (onTransport f) Q s := by
  refine holds_under (hs.and stable_at).free ⟨⟨pre, hh⟩, hf⟩ ?_
  rintro t hk ⟨⟨pre, hh⟩, hf⟩ w -
  have hfr : Framed t { t with transport := f t.transport } :=
    ⟨rfl, rfl, rfl, rfl, rfl, rfl, by rw [hh.transport, hg]⟩
  refine ⟨hk.framed hfr hk.queue, guarantee_own t _ _ _, ?_⟩
  have he := hp t pre hh hf
  rwa [← hh.transport] at he

/-- The transport keeps its promise and does not hold the queue. -/
abbrev Settled (s : ConsoleState) : Prop := s.queueLock ≠ some 0 ∧ Live s

theorem live_failed (failed : t.transport.failed = true) (fresh : t.transport.generation ≠ 0) :
    Live t where
  fresh none := absurd none fresh
  sound sound := by simp [failed] at sound
  synced sound := by simp [failed] at sound
  pending sound := by simp [failed] at sound

theorem holds_fatal {f : Transport → Transport} (hfa : (f T).failed = true)
    (hg : (f T).generation = T.generation) (ho : T.generation ≠ 0)
    (hh : At T C B s) (hf : s.queueLock ≠ some 0) : (consoleRules True).Holds 0
      (onTransport f >>= fun _ => pure PumpResult.fatal) (fun _ => Settled) s := by
  refine (holds_bind ..).mpr (holds_onTransport hg stable_true hh trivial hf ?_)
  exact fun u _ _ hf => ⟨hf, live_failed hfa (hg.symm ▸ ho)⟩

theorem holds_settle {sequence : UInt64} (whenBusy whenDone : PumpResult)
    (hh : At T C B s ∧ Rest g k s) (hf : s.queueLock ≠ some 0) (own : T.generation = g)
    (hv : g ≠ 0) (hp : T.sentUncommittedSequence ≠ 0)
    (hso : ∀ w ∈ C.writes, w.outcome ≠ .failed) (hc : sentCount C.writes = k + 1) :
    (consoleRules True).Holds 0 (settle 0 g sequence whenBusy whenDone)
      (fun _ => Settled) s := by
  refine (holds_commitOwn sequence hh hf).bind ?_
  rintro result t ⟨hh, hf⟩
  have ho : T.generation ≠ 0 := own ▸ hv
  simp only [holds_ite, holds_bind]
  refine ⟨fun hb => ?_, fun _ => ⟨fun hre => ?_, fun _ => ?_⟩⟩
  · rw [if_neg (by simp [hb])] at hh
    refine holds_onTransport rfl stable_sending hh.1 hh hf fun u hh hs hf => ⟨hf, ?_⟩
    exact
      { fresh := fun hn => absurd hn ho
        sound := fun _ => hs.current ▸ hso
        synced := fun _ _ hcl => absurd hcl hp
        pending := fun _ _ => ⟨k, hs.current ▸ hc, own ▸ hh.2.withTransport _⟩ }
  · rw [if_pos hre, ← hc] at hh
    refine holds_onTransport rfl stable_sending hh.1 hh hf fun u hh hs hf => ⟨hf, ?_⟩
    exact
      { fresh := fun hn => absurd hn ho
        sound := fun _ => hs.current ▸ hso
        synced := fun _ _ _ => by
          have hr := hh.2.withTransport { T with sentUncommittedSequence := 0 }
          rw [← hs.current, ← own] at hr
          exact hr
        pending := fun _ hu => absurd rfl hu }
  · refine holds_onTransport rfl stable_sending hh.1 hh hf fun u hh hs hf => ⟨hf, ?_⟩
    exact live_failed rfl ho

theorem transportFrameRecord_ne_nil {data f : Bytes}
    (hb : transportFrameRecord data = some f) : f ≠ [] := by
  simp only [transportFrameRecord, Option.map_eq_some_iff] at hb
  obtain ⟨payload, -, rfl⟩ := hb
  simp [framed]

theorem sentCount_cons (w : Write) (e : List Write) :
    sentCount (w :: e) = sentCount e + if whole w then 1 else 0 := by
  by_cases all : whole w <;> simp [sentCount, all]

def Connection.wrote (C : Connection) (write : Write) : Connection :=
  { C with writes := write :: C.writes }

/-- The transport's own changes: its connection is new or has gone on. -/
theorem Kept.connect (hk : Kept s) (hp : ∀ c ∈ B, c ∈ s.current :: s.past)
    (hf : Follows (ofGeneration C.generation s.accepted) C.writes)
    (hb : C.generation ≤ generationOf s.session)
    (ha : (C :: B).Pairwise fun n o =>
      n.generation ≠ 0 → o.generation < n.generation)
    (ho : C.generation = T.generation) :
    Kept { s with transport := T, current := C, past := B } where
  __ := hk
  follows := forall_mem_cons.mpr ⟨hf, fun c mem => hk.follows c (hp c mem)⟩
  bounded := forall_mem_cons.mpr ⟨hb, fun c mem => hk.bounded c (hp c mem)⟩
  apart := ha
  owner := ho

theorem kept_wrote (hk : Kept s) {write : Write} (hs : ∀ w ∈ s.current.writes, w.outcome ≠ .failed)
    (hne : (ofGeneration s.current.generation s.accepted)[sentCount s.current.writes]? =
      some write.record)
    (hf : transportFrameRecord write.record.data = some write.frame) :
    Kept { s with current := Connection.wrote s.current write } := by
  obtain ⟨hn, hr⟩ := pairwise_cons.mp hk.apart
  exact Kept.connect hk (fun _ => mem_cons_of_mem _)
    ⟨hk.follows s.current mem_cons_self, hs, hne, hf⟩ (hk.bounded s.current mem_cons_self)
    (pairwise_cons.mpr ⟨hn, hr⟩) hk.owner

section
variable (here : At T C B s ∧ Rest g k s)
include here

theorem holds_writeFrame {f : Bytes}
    (hn : Next g k record s) (free : s.queueLock ≠ some 0) (own : T.generation = g)
    (hs : ∀ wrt ∈ C.writes, wrt.outcome ≠ .failed) (hc : sentCount C.writes = k)
    (hb : transportFrameRecord record.data = some f) :
    (consoleRules True).Holds 0 (writeFrame record f) (fun written t => t.queueLock ≠ some 0 ∧
      record.sequence ≠ 0 ∧ Rest g k t ∧ At T (Connection.wrote C ⟨record, f, written.2.1,
        writeOutcome written.1 written.2.1 f.length⟩) B t) s := by
  refine holds_under (stable_sending.and stable_next).free ⟨⟨here, hn⟩, free⟩ ?_
  rintro t kept ⟨⟨⟨here, rest⟩, hn⟩, free⟩ w -
  have same : t.current.generation = g := by rw [kept.owner, here.transport, own]
  have mem : record ∈ t.accepted := (mem_filter.mp (mem_of_getElem? hn)).1
  have first : (ofGeneration t.current.generation t.accepted)[sentCount t.current.writes]? =
      some record := by rwa [same, here.current, hc]
  refine ⟨kept_wrote kept (here.current ▸ hs) first hb,
    guarantee_own t _ _ _, free, (kept.records record mem).2.1,
    ⟨rest.session, rest.bound, rest.rest⟩, here.transport, ?_,
    here.past⟩
  rw [← here.current]
  rfl

theorem holds_sendRecord (hne : Next g k record s)
    (hf : s.queueLock ≠ some 0) (own : T.generation = g) (hv : g ≠ 0)
    (hcl : T.sentUncommittedSequence = 0) (hso : ∀ w ∈ C.writes, w.outcome ≠ .failed)
    (hc : sentCount C.writes = k) :
    (consoleRules True).Holds 0 (sendRecord 0 g record) (fun _ => Settled) s := by
  have opened : T.generation ≠ 0 := own ▸ hv
  cases built : transportFrameRecord record.data with
  | none =>
    rw [sendRecord, built]
    exact holds_fatal rfl rfl opened here.1 hf
  | some f =>
    have filled : ¬0 = f.length := fun zero =>
      transportFrameRecord_ne_nil built (length_eq_zero_iff.mp zero.symm)
    rw [sendRecord, built]
    refine (holds_writeFrame here hne hf own hso hc built).bind ?_
    rintro ⟨r, sent, ner⟩ t ⟨hf, sequence, rest, here⟩
    rw [holds_ite]
    constructor
    · rintro ⟨rfl, rfl⟩
      refine (holds_bind ..).mpr (holds_onTransport rfl stable_rest here rest hf ?_)
      intro u rest same hf
      have partly : sentCount u.current.writes = k := by
        rw [same.current, Connection.wrote, sentCount_cons, hc]
        simp [whole, filled]
      refine ⟨hf, fun none => absurd none opened, fun _ w mem => ?_, fun _ _ _ => ?_,
        fun _ unclean => absurd hcl unclean⟩
      · rw [same.current] at mem
        exact forall_mem_cons.mpr ⟨by simp [writeOutcome], hso⟩ w mem
      · have all := rest.withTransport (T.blocked ner)
        rw [← partly, ← own] at all
        exact all
    intro progressed
    rw [holds_ite]
    refine ⟨fun _ => holds_fatal rfl rfl opened here hf, fun full => (holds_bind ..).mpr ?_⟩
    obtain ⟨rfl, rfl⟩ : r = .complete ∧ sent = f.length := by simpa using full
    refine holds_calm (stable_at.and stable_rest).free ⟨⟨here, rest⟩, hf⟩ (fun t _ => .refl t) ?_
    rintro t - - ⟨⟨here, rest⟩, hf⟩
    rw [holds_ite]
    refine ⟨fun _ => holds_fatal rfl rfl opened here hf, fun _ => (holds_bind ..).mpr ?_⟩
    refine holds_onTransport rfl stable_rest here rest hf fun u rest same hf => ?_
    refine holds_settle (k := k) .sent .sent ⟨⟨rfl, same.current, same.past⟩, rest.withTransport _⟩
      hf own hv sequence (forall_mem_cons.mpr ⟨by simp [writeOutcome], hso⟩) ?_
    rw [Connection.wrote, sentCount_cons, hc]
    simp [whole]

theorem holds_sendNext (hf : s.queueLock ≠ some 0)
    (own : T.generation = g) (hv : g ≠ 0) (hc : T.sentUncommittedSequence = 0)
    (sound : ∀ w ∈ C.writes, w.outcome ≠ .failed) (hco : sentCount C.writes = k) :
    (consoleRules True).Holds 0 (sendNext 0 g) (fun _ => Settled) s := by
  have opened : T.generation ≠ 0 := own ▸ hv
  refine (holds_peekOwn here hf).bind ?_
  rintro ⟨r, head⟩ t ⟨⟨here, next⟩, hf⟩
  have waiting : Live t :=
    { fresh := fun none => absurd (here.1.transport ▸ none) opened
      sound := fun _ => here.1.current.symm ▸ sound
      synced := fun _ _ _ => by
        rw [here.1.transport, here.1.current, own, hco]
        exact here.2
      pending := fun _ unclean => absurd (here.1.transport.symm ▸ hc) unclean }
  have refused := @holds_fatal t T C B (·.sessionError) rfl rfl opened here.1 hf
  cases r with
  | empty => exact ⟨hf, waiting⟩
  | busy => exact ⟨hf, waiting⟩
  | ready =>
    cases head with
    | none => exact refused
    | some record =>
      exact holds_sendRecord here (next record rfl) hf own hv hc sound hco
  | error => exact refused
  | stale => exact refused

end

/-! Sessions of the transport. -/

theorem private_at : Private (At T C B) := fun _ _ ht hc hp hh =>
  ⟨ht.trans hh.transport, hc.trans hh.current, hp.trans hh.past⟩

theorem live_closed (hn : s.transport.generation = 0)
    (hc : s.transport.sentUncommittedSequence = 0) (hb : s.current.writes = []) : Live s where
  fresh _ := ⟨hc, hb⟩
  sound _ _ mem := absurd (hb ▸ mem) not_mem_nil
  synced _ ho := absurd hn ho
  pending _ hu := absurd hc hu

theorem holds_adoptSession (hh : At T C B s ∧ Rest g 0 s) (hf : s.queueLock ≠ some 0)
    (hv : g ≠ 0) (hn : ∀ conn ∈ B, conn.generation < g)
    (hc : T.sentUncommittedSequence = 0) (hb : C.writes = []) :
    (consoleRules True).Holds 0 (adoptSession g) (fun _ t => t.queueLock ≠ some 0 ∧ Live t ∧
      t.transport.failed = T.failed ∧ t.transport.generation ≠ 0) s := by
  refine holds_under stable_sending.free ⟨hh, hf⟩ ?_
  rintro t hk ⟨⟨hh, hr⟩, hf⟩ w -
  have hb : t.current.writes = [] := by rw [hh.current, hb]
  have ha : Kept { t with
      transport := { t.transport with generation := g }
      current := { t.current with generation := g } } := by
    obtain ⟨-, he⟩ := pairwise_cons.mp hk.apart
    refine Kept.connect hk (fun _ => mem_cons_of_mem _) (hb ▸ trivial)
      (hr.session ▸ UInt32.le_refl _) (pairwise_cons.mpr ⟨fun conn mem _ => hn conn ?_, he⟩) rfl
    rwa [← hh.past]
  refine ⟨ha, guarantee_own t _ _ _, hf, ?_, by rw [← hh.transport], hv⟩
  exact
    { fresh := fun hno => absurd hno hv
      sound := fun _ write mem => absurd (hb ▸ mem) not_mem_nil
      synced := fun _ _ _ => by
        rw [hb]
        exact ⟨hr.session, hr.bound, hr.rest⟩
      pending := fun _ hu => by
        rw [← hh.transport] at hc
        exact absurd hc hu }

theorem holds_detachConnection (hf : s.queueLock ≠ some 0) :
    (consoleRules True).Holds 0 detachConnection (fun _ t => t.queueLock ≠ some 0 ∧
      At t.transport ⟨0, []⟩ t.past t ∧ t.transport.generation = 0 ∧
      t.transport.sentUncommittedSequence = 0) s := by
  refine holds_under stable_true.free ⟨trivial, hf⟩ ?_
  rintro t hk ⟨-, hf⟩ w -
  refine ⟨?_, guarantee_own t _ _ _, hf, ⟨rfl, rfl, rfl⟩, rfl, rfl⟩
  exact Kept.connect hk (fun _ mem => mem) trivial UInt32.zero_le
    (pairwise_cons.mpr ⟨fun _ _ ho => absurd rfl ho, hk.apart⟩) rfl

theorem holds_endConnection (hf : s.queueLock ≠ some 0) :
    (consoleRules True).Holds 0 (endConnection 0) (fun _ t => t.queueLock ≠ some 0 ∧
      ∃ T B, At T ⟨0, []⟩ B t ∧ T.generation = 0 ∧ T.sentUncommittedSequence = 0) s := by
  refine (holds_bind ..).mpr (holds_calm stable_true.free ⟨trivial, hf⟩ (fun t _ => .refl t) ?_)
  rintro t - - ⟨-, hf⟩
  refine (holds_detachConnection hf).bind ?_
  rintro - u ⟨hf, hh, hn, hc⟩
  rw [holds_ite]
  refine ⟨fun _ => ⟨hf, _, _, hh, hn, hc⟩, fun _ => ?_⟩
  refine (holds_sessionClose _ (fun _ => rfl) stable_at private_at hh hf).mono ?_
  exact fun _ v ⟨hh, hf⟩ => ⟨hf, _, _, hh, hn, hc⟩

theorem At.live_closed (hh : At T ⟨0, []⟩ B t) (hn : T.generation = 0)
    (hc : T.sentUncommittedSequence = 0) : Live t :=
  ConsoleDelivery.live_closed (hh.transport ▸ hn) (hh.transport ▸ hc) (by rw [hh.current])

theorem holds_beginConnection (hf : s.queueLock ≠ some 0) :
    (consoleRules True).Holds 0 (beginConnection 0) (fun _ => Settled) s := by
  refine (holds_endConnection hf).bind ?_
  rintro result t ⟨hf, T, B, hh, hn, hc⟩
  refine (holds_bind ..).mpr (holds_onTransport rfl stable_true hh trivial hf ?_)
  exact fun u _ hs hf => ⟨hf, live_closed hn rfl (by rw [hs.current])⟩

theorem live_stable : Stable True 0 Live := fun _ _ hm hl => hl.owner (hm.2.2 trivial rfl)

section
variable (live : Live s) (free : s.queueLock ≠ some 0)
include live free

theorem holds_look {α β : Type} {f : ConsoleState → α} {next : α → Console β}
    {Q : β → ConsoleState → Prop}
    (hp : ∀ t, At s.transport s.current s.past t → Live t → t.queueLock ≠ some 0 →
      (consoleRules True).Holds 0 (next (f t)) Q t) :
    (consoleRules True).Holds 0 (Prog.read f >>= next) Q s :=
  (holds_bind ..).mpr (holds_calm (stable_at.and live_stable).free ⟨⟨⟨rfl, rfl, rfl⟩, live⟩, free⟩
    (fun t _ => .refl t) fun t _ _ ⟨⟨here, live⟩, free⟩ => hp t here live free)

theorem holds_pumpSession (hv : s.transport.generation ≠ 0) (hf : s.transport.failed = false) :
    (consoleRules True).Holds 0 (pumpSession 0) (fun _ => Settled) s := by
  have sound := live.sound hf
  refine holds_look live free fun t here live free => ?_
  have same := here.transport
  rw [holds_ite, same]
  constructor
  · intro unclean
    obtain ⟨k, count, rest⟩ := live.pending (same ▸ hf) (same ▸ unclean)
    rw [here.current] at count
    rw [same] at rest
    exact holds_settle .busy .committed ⟨here, rest⟩ free rfl hv unclean sound count
  intro clean
  have clean := not_not.mp clean
  have rest := live.synced (same ▸ hf) (same ▸ hv) (same ▸ clean)
  rw [same, here.current] at rest
  exact holds_sendNext ⟨here, rest⟩ free rfl hv clean sound rfl

/-- What `ensureSession` answers; it opens no session that it does not adopt. -/
theorem holds_ensureSession :
    (consoleRules True).Holds 0 (ensureSession 0) (fun r t => t.queueLock ≠ some 0 ∧ Live t ∧
      t.transport.failed = s.transport.failed ∧
      (r = .empty ∨ r = .busy ∨ r = .ready ∧ t.transport.generation ≠ 0)) s := by
  refine holds_look live free fun t here live free => ?_
  have failed : t.transport.failed = s.transport.failed := by rw [here.transport]
  rw [holds_ite]
  refine ⟨fun _ => ⟨free, live, failed, .inl rfl⟩, fun _ => ?_⟩
  rw [holds_ite]
  refine ⟨fun valid => ⟨free, live, failed, .inr (.inr ⟨rfl, valid⟩)⟩, fun none => ?_⟩
  have none := not_not.mp none
  obtain ⟨clean, blank⟩ := live.fresh none
  rw [here.transport] at none clean
  rw [here.current] at blank
  refine (holds_sessionOpen (fun _ => rfl) stable_at
    private_at (Q := fun g t => (At s.transport s.current s.past t ∧ Rest g 0 t) ∧
      ∀ conn ∈ s.past, conn.generation < g) ?_ ?_ ?_ here free).bind ?_
  · exact fun g => stable_sending.and fun _ _ _ newest => newest
  · exact fun g t lock ⟨⟨here, rest⟩, newest⟩ =>
      ⟨⟨private_at t _ rfl rfl rfl here, rest.session, rest.bound, rest.rest⟩, newest⟩
  · intro g t here rest _ newest
    refine ⟨⟨here, rest⟩, fun conn mem => newest conn (mem_cons_of_mem _ ?_)⟩
    rwa [here.past]
  rintro g u ⟨free, refused, opened⟩
  rw [holds_ite]
  constructor
  · intro zero
    have here := refused zero
    refine ⟨free, live_closed (here.transport ▸ none) (here.transport ▸ clean)
      (here.current ▸ blank), by rw [here.transport], .inr (.inl rfl)⟩
  intro valid
  obtain ⟨here, newest⟩ := opened valid
  refine (holds_adoptSession here free valid newest clean blank).bind ?_
  exact fun _ v ⟨free, live, failed, valid⟩ =>
    ⟨free, live, failed, .inr (.inr ⟨rfl, valid⟩)⟩

theorem holds_pump : (consoleRules True).Holds 0 (pump 0) (fun _ => Settled) s := by
  refine holds_look live free fun t here live free => ?_
  cases failed : t.transport.failed with
  | true =>
    exact ⟨free, live⟩
  | false =>
    refine (holds_ensureSession live free).bind ?_
    rintro result u ⟨free, live, same, known⟩
    rw [failed] at same
    rcases known with rfl | rfl | ⟨rfl, valid⟩
    · exact ⟨free, live⟩
    · exact ⟨free, live⟩
    · exact holds_pumpSession live free valid same

theorem holds_enableNoAck : (consoleRules True).Holds 0 (enableNoAck 0) (fun _ => Settled) s := by
  refine holds_look live free fun t here live free => ?_
  cases failed : t.transport.failed with
  | true =>
    exact ⟨free, live⟩
  | false =>
    refine (holds_bind ..).mpr (holds_onTransport rfl live_stable here live free ?_)
    intro u live same free
    have told : Live { u with transport := { s.transport with noAckMode := true } } := by
      rw [← same.transport]
      exact ⟨live.fresh, live.sound, fun sound opened clean =>
        (live.synced sound opened clean).withTransport _, fun sound unclean =>
        (live.pending sound unclean).imp fun k both => ⟨both.1, both.2.withTransport _⟩⟩
    exact (holds_ensureSession told free).mono fun _ v ⟨free, live, _⟩ => ⟨free, live⟩

end

end Transport

/-! Whole runs. -/

/-- Thread 0 makes the transport's calls and the other threads make the others. -/
def Starts (i : ℕ) (_ : ConsoleState) (p : Console Unit) : Prop :=
  ∃ call : ConsoleCall, (i = 0 ↔ call.OwnerOnly) ∧ p = call.program i

/-- A run in which the session generations do not wrap. -/
abbrev TransportRun := RunWithin Starts (fun s => s.opened < 2 ^ 31) reset

theorem holds_program {i : ℕ} {call : ConsoleCall} {s : ConsoleState}
    (hc : i = 0 ↔ call.OwnerOnly) (hi : (consoleRules True).idle i s) :
    (consoleRules True).Holds i (call.program i) (fun _ t => (consoleRules True).idle i t) s := by
  obtain ⟨hf, hl⟩ := hi
  cases call with
  | capture data =>
    refine (holds_capture data hf).bind ?_
    exact fun _ t hf => ⟨hf, fun _ hz => absurd (hc.mp hz) id⟩
  | closeActiveGate =>
    refine (holds_sessionCloseActiveGate hf).mono ?_
    exact fun _ t hf => ⟨hf, fun _ hz => absurd (hc.mp hz) id⟩
  | beginConnection =>
    obtain rfl : i = 0 := hc.mpr trivial
    exact (holds_beginConnection hf).bind fun _ t ⟨hf, hl⟩ => ⟨hf, fun _ _ => hl⟩
  | enableNoAck =>
    obtain rfl : i = 0 := hc.mpr trivial
    exact (holds_enableNoAck (hl trivial rfl) hf).bind fun _ t ⟨hf, hl⟩ => ⟨hf, fun _ _ => hl⟩
  | endConnection =>
    obtain rfl : i = 0 := hc.mpr trivial
    exact (holds_endConnection hf).bind fun _ t ⟨hf, _, _, hh, hcl, hce⟩ =>
        ⟨hf, fun _ _ => hh.live_closed hcl hce⟩
  | pump =>
    obtain rfl : i = 0 := hc.mpr trivial
    exact (holds_pump (hl trivial rfl) hf).bind fun _ t ⟨hf, hl⟩ => ⟨hf, fun _ _ => hl⟩

theorem TransportRun.kept {c : Config ℕ ConsoleState ConsoleReply} (run : TransportRun c) :
    Kept c.shared := by
  have hs : Safe (consoleRules True) c := by
    refine RunWithin.safe ?_ kept_reset (fun i => ⟨nofun, fun _ _ => ?_⟩) run
    · rintro i s p ⟨call, hc, rfl⟩ - hi
      exact holds_program hc hi
    · exact live_closed rfl rfl rfl
  exact hs.inv

theorem Follows.framed {rs : List Record} {ws : List Write}
    (hf : Follows rs ws) : ∀ w ∈ ws, w.record ∈ rs ∧
      transportFrameRecord w.record.data = some w.frame := by
  induction ws with
  | nil => exact nofun
  | cons w earlier ih =>
    obtain ⟨hb, -, hn, hfr⟩ := hf
    intro o mem
    cases mem_cons.mp mem with
    | inl hh => exact hh ▸ ⟨mem_of_getElem? hn, hfr⟩
    | inr hl => exact ih hb o hl

/-- The frames that left whole, in the order they were written. -/
def completeFrames (conn : Connection) : List Bytes :=
  ((conn.writes.filter whole).map (·.frame)).reverse

theorem completeFrames_decode {rs : List Record} {conn : Connection}
    (hf : Follows rs conn.writes) (fit : ∀ record ∈ rs, record.data.length ≤ recordMax) :
    (completeFrames conn).map decodeConsoleFrame =
      (delivered conn.writes).map fun record => some record.data := by
  simp only [completeFrames, delivered, map_reverse, map_map]
  congr 1
  refine map_congr_left fun w mem => ?_
  obtain ⟨hk, hfr⟩ := Follows.framed hf w (mem_filter.mp mem).1
  obtain ⟨frame, hb, -, hd⟩ := transportFrameRecord_decodes (fit _ hk)
  rw [hfr] at hb
  cases hb
  exact hd

/-- On every connection the complete frames decode in order to the first records
accepted under its session's generation, every write is of such a record, and a failed
write is the last. A newer connection has a newer generation. -/
theorem connections_deliver {c : Config ℕ ConsoleState ConsoleReply} (run : TransportRun c) :
    (c.shared.current :: c.shared.past).Pairwise (fun newer older =>
      newer.generation ≠ 0 → older.generation < newer.generation) ∧
    ∀ conn ∈ c.shared.current :: c.shared.past,
      (∃ records, records <+: ofGeneration conn.generation c.shared.accepted ∧
        records.flatMap (·.data) <+: c.shared.captured conn.generation ∧
        (completeFrames conn).map decodeConsoleFrame = records.map fun record => some record.data) ∧
      (∀ write ∈ conn.writes, write.record.generation = conn.generation ∧
        write.record ∈ c.shared.accepted ∧
        transportFrameRecord write.record.data = some write.frame) ∧
      ∀ write ∈ conn.writes.tail, write.outcome ≠ .failed := by
  have hk := run.kept
  refine ⟨hk.apart, fun conn mem => ⟨⟨delivered conn.writes, ?_, ?_, ?_⟩, ?_, ?_⟩⟩
  · exact (hk.follows conn mem).delivered
  · rw [hk.captured]
    obtain ⟨rest, hs⟩ := (hk.follows conn mem).delivered
    exact ⟨rest.flatMap (·.data), by rw [← hs, flatMap_append]⟩
  · refine completeFrames_decode (hk.follows conn mem) fun record ha => ?_
    exact (hk.records record (mem_filter.mp ha).1).2.2
  · intro write ha
    obtain ⟨hkn, hfr⟩ := Follows.framed (hk.follows conn mem) write ha
    obtain ⟨accepted, hsa⟩ := mem_filter.mp hkn
    exact ⟨by simpa using hsa, accepted, hfr⟩
  have hf := hk.follows conn mem
  cases writes : conn.writes with
  | nil => exact nofun
  | cons write earlier =>
    rw [writes] at hf
    exact hf.2.1

/-- The locks are free and every write is complete. -/
def smooth : ConsoleReply := ⟨true, .complete, 1000, 0⟩

def turns (i : ℕ) (call : ConsoleCall) (actions : ℕ) : List (Move ℕ ConsoleState ConsoleReply) :=
  .call i (call.program i) :: List.replicate actions (.act i smooth)

/-- Thread 1 captures two bytes and the transport sends them. -/
def twoBytes : List (Move ℕ ConsoleState ConsoleReply) :=
  turns 0 .enableNoAck 15 ++ turns 1 (.capture [104, 105]) 7 ++ turns 0 .pump 19

theorem connections_deliver_twoBytes : ∃ c : Config ℕ ConsoleState ConsoleReply,
    c.shared.captured 1 = [104, 105] ∧
    (completeFrames c.shared.current).map decodeConsoleFrame = [some [104, 105]] ∧
    ∀ write ∈ c.shared.current.writes, write.record.generation = c.shared.current.generation := by
  have he : (Config.replayWithin (fun s => s.opened < 2 ^ 31) twoBytes
      ⟨reset, fun _ => pure ()⟩).map (fun c => (c.shared.captured 1,
        (completeFrames c.shared.current).map decodeConsoleFrame)) =
      some ([104, 105], [some [104, 105]]) := by decide +kernel
  obtain ⟨c, hr, hs⟩ := Option.map_eq_some_iff.mp he
  have run : TransportRun c := by
    refine RunWithin.replay (fun i p mem s => ?_) .init hr
    simp only [twoBytes, turns, mem_append, mem_cons, mem_replicate,
      Move.call.injEq, reduceCtorEq, and_false, or_false] at mem
    obtain (⟨rfl, rfl⟩ | ⟨rfl, rfl⟩) | ⟨rfl, rfl⟩ := mem
    · exact ⟨.enableNoAck, by simp [ConsoleCall.OwnerOnly], rfl⟩
    · exact ⟨.capture [104, 105], by simp [ConsoleCall.OwnerOnly], rfl⟩
    · exact ⟨.pump, by simp [ConsoleCall.OwnerOnly], rfl⟩
  obtain ⟨captured, hf⟩ := Prod.mk.inj hs
  obtain ⟨-, hd⟩ := connections_deliver run
  obtain ⟨-, own, -⟩ := hd c.shared.current mem_cons_self
  exact ⟨c, captured, hf, fun write mem => (own write mem).1⟩

end VitaDebugger.ConsoleDelivery
