import VitaDebugger.Broker
import VitaDebugger.TraceMonitor

/-! Whole runs of the attach broker. Sessions are numbered as they are opened and tickets as they
are issued, whatever slots and tokens they share with earlier ones, and a log keeps what happened
to them. -/

namespace VitaDebugger.BrokerLedger
open Broker BrokerWire TraceMonitor List Function Nat

inductive Event where
  | opened (session : ℕ)
  | accepted (session : ℕ) (requestId : Bytes)
  | issued (session ticket : ℕ) (granted : VdAttachBrokerTicket)
  | consumed (session ticket : ℕ)
  | released (session ticket : ℕ) (now : UInt64) (current : VdAttachTargetIdentity)
  deriving DecidableEq

/-- The broker with the numbers of the sessions and tickets its slots hold, and the log. -/
structure World where
  broker : VdAttachBroker
  openings : ℕ
  serial : Fin 4 → ℕ
  issues : ℕ
  number : Fin 4 → ℕ
  log : List Event

namespace World

def start (broker : VdAttachBroker) : World := ⟨broker, 0, fun _ => 0, 0, fun _ => 0, []⟩

def record (now : UInt64) (w : World) : Fin 4 × Effect → World
  | (i, .accepted requestId) => { w with log := w.log ++ [.accepted (w.serial i) requestId] }
  | (i, .issued ticket) =>
    { w with
      issues := w.issues + 1
      number := update w.number i w.issues
      log := w.log ++ [.issued (w.serial i) w.issues ticket] }
  | (i, .consumed) => { w with log := w.log ++ [.consumed (w.serial i) (w.number i)] }
  | (i, .released current) =>
    { w with log := w.log ++ [.released (w.serial i) (w.number i) now current] }

/-- The outcome of a request, with its effects logged. -/
def apply (w : World) (now : UInt64) (outcome : Outcome) : World :=
  outcome.effects.foldl (record now) { w with broker := outcome.broker }

/-- One request, with what it answers. -/
def handle (w : World) (sessionId peerId : UInt64) (request : Bytes) (capacity : ℕ)
    (answers : Answers) : World × Except BrokerError Bytes :=
  let outcome := vdHandleRecordWithDeadline w.broker sessionId peerId request capacity answers
  (w.apply answers.now outcome, outcome.response)

def openSession (w : World) (peerId now : UInt64) (entropy : Entropy) : World :=
  match vdAttachBrokerOpenSession w.broker peerId now entropy with
  | (broker, .error _) => { w with broker := broker }
  | (broker, .ok (i, _)) =>
    { w with
      broker := broker
      openings := w.openings + 1
      serial := update w.serial i w.openings
      log := w.log ++ [.opened w.openings] }

end World

/-- The calls of the broker, with the answers of its callbacks. -/
inductive Call where
  | openSession (peerId now : UInt64) (entropy : Entropy)
  | handleRecord (sessionId peerId : UInt64) (request : Bytes) (capacity : ℕ)
    (answers : Answers)
  | closeSession (sessionId peerId : UInt64)
  | shutdown

def World.step (w : World) : Call → World
  | .openSession peerId now entropy => w.openSession peerId now entropy
  | .handleRecord sessionId peerId request capacity answers =>
    (w.handle sessionId peerId request capacity answers).1
  | .closeSession sessionId peerId =>
    { w with broker := vdAttachBrokerCloseSession w.broker sessionId peerId }
  | .shutdown => { w with broker := vdAttachBrokerShutdown w.broker }

def World.run (w : World) (calls : List Call) : World := calls.foldl World.step w

/-- What each event needs of the events before it. -/
def Legal (before : List Event) : Event → Prop
  | .opened _ => True
  | .accepted s requestId => .accepted s requestId ∉ before
  | .issued _ t _ => ∀ s granted, .issued s t granted ∉ before
  | .consumed s t => (∃ granted, .issued s t granted ∈ before) ∧ ∀ s', .consumed s' t ∉ before
  | .released s t now current =>
    ∃ granted, .issued s t granted ∈ before ∧ granted.identity = current ∧
      now < granted.expiresAtMs ∧ .consumed s t ∈ before

/-- A log in which each event is legal behind the events before it. -/
def ledger : Monitor Event (List Event) := ⟨[], fun log event => log ++ [event], Legal⟩

theorem ledger_after (log : List Event) : ledger.after log = log := by
  induction log using List.reverseRecOn with
  | nil => rfl
  | append_singleton log event ih =>
    rw [Monitor.after_append_singleton, ih]
    rfl

variable {event : Event}

theorem accepts_append {log : List Event} (ha : ledger.Accepts log) (hal : Legal log event) :
    ledger.Accepts (log ++ [event]) := by
  apply ha.append_singleton
  rw [ledger_after]
  exact hal

/-- A slot holds a ticket. -/
def Live (w : World) (i : Fin 4) : Prop :=
  (w.broker.sessions i).active = true ∧ (w.broker.sessions i).ticket.active = true

/-- The log accounts for what the slots hold. -/
structure Accounted (w : World) : Prop where
  serial_lt : ∀ i, (w.broker.sessions i).active = true → w.serial i < w.openings
  serial_inj : ∀ i j, (w.broker.sessions i).active = true → (w.broker.sessions j).active = true →
    w.serial i = w.serial j → i = j
  accepted_lt : ∀ s requestId, .accepted s requestId ∈ w.log → s < w.openings
  accepted_known : ∀ i requestId, (w.broker.sessions i).active = true →
    .accepted (w.serial i) requestId ∈ w.log → requestId ∈ (w.broker.sessions i).requestIds
  number_inj : ∀ i j, Live w i → Live w j → w.number i = w.number j → i = j
  issued_lt : ∀ s t granted, .issued s t granted ∈ w.log → t < w.issues
  ticket_issued : ∀ i, Live w i →
    .issued (w.serial i) (w.number i) (w.broker.sessions i).ticket ∈ w.log
  consumed_lt : ∀ s t, .consumed s t ∈ w.log → t < w.issues
  unconsumed : ∀ i s, Live w i → .consumed s (w.number i) ∉ w.log
  legal : ledger.Accepts w.log

theorem Accounted.start {broker : VdAttachBroker}
    (hc : ∀ i, (broker.sessions i).active = false) : Accounted (World.start broker) := by
  have hi (i : Fin 4) : (broker.sessions i).active ≠ true := by simp [hc i]
  constructor
  case serial_lt => exact fun i ha => absurd ha (hi i)
  case serial_inj => exact fun i j ha => absurd ha (hi i)
  case accepted_lt | issued_lt | consumed_lt => simp [World.start]
  case accepted_known => exact fun i requestId ha => absurd ha (hi i)
  case number_inj => exact fun i j hl => absurd hl.1 (hi i)
  case ticket_issued => exact fun i hl => absurd hl.1 (hi i)
  case unconsumed => exact fun i s hl => absurd hl.1 (hi i)
  case legal => exact Monitor.accepts_nil

/-- A session that goes on: it forgets no identifier and takes up no other ticket. -/
structure Retains (old new : VdAttachBrokerSession) : Prop where
  active : new.active = true → old.active = true
  ids : new.active = true → ∀ requestId ∈ old.requestIds, requestId ∈ new.requestIds
  ticket : new.active = true → new.ticket.active = true → new.ticket = old.ticket

theorem Retains.refl (s : VdAttachBrokerSession) : Retains s s :=
  ⟨id, fun _ _ => id, fun _ _ => rfl⟩

theorem Retains.of_inactive {old new : VdAttachBrokerSession} (hi : new.active = false) :
    Retains old new := by
  constructor <;> intro ha <;> rw [hi] at ha <;> cases ha

theorem mem_appended {log : List Event} {o : Event} (hl : o ∈ log ++ [event]) :
    o ∈ log ∨ o = event := by
  simpa using hl

theorem mem_earlier {log : List Event} {o : Event} (hl : o ∈ log ++ [event])
    (hu : o ≠ event) : o ∈ log :=
  (mem_appended hl).resolve_right hu

/-- A new number at `i`, above those of the others, keeps the numbers apart. -/
theorem update_apart {P : Fin 4 → Prop} {f : Fin 4 → ℕ} {i : Fin 4} {n : ℕ}
    (hb : ∀ j, j ≠ i → P j → f j < n)
    (ha : ∀ j k, j ≠ i → k ≠ i → P j → P k → f j = f k → j = k) (j k : Fin 4) (hf : P j)
    (hse : P k) (hs : update f i n j = update f i n k) : j = k := by
  by_cases hh : j = i
  · by_cases ht : k = i
    · rw [hh, ht]
    · rw [hh, update_self, update_of_ne ht] at hs
      exact absurd hs.symm (Nat.ne_of_lt (hb k ht hse))
  rw [update_of_ne hh] at hs
  by_cases ht : k = i
  · rw [ht, update_self] at hs
    exact absurd hs (Nat.ne_of_lt (hb j hh hf))
  · rw [update_of_ne ht] at hs
    exact ha j k hh ht hf hse hs

section Steps
variable {w : World} {broker : VdAttachBroker} {i : Fin 4} {now : UInt64}

section
variable (a : Accounted w)
include a

/-- Nothing is lost where every slot goes on or ends. -/
theorem Accounted.retains (hsl : ∀ j, Retains (w.broker.sessions j) (broker.sessions j)) :
    Accounted { w with broker := broker } := by
  have ha (j : Fin 4) (hna : (broker.sessions j).active = true) :
      (w.broker.sessions j).active = true := (hsl j).active hna
  have hli (j : Fin 4) (hnl : Live { w with broker := broker } j) :
      Live w j ∧ (broker.sessions j).ticket = (w.broker.sessions j).ticket := by
    have hs := (hsl j).ticket hnl.1 hnl.2
    exact ⟨⟨ha j hnl.1, hs ▸ hnl.2⟩, hs⟩
  refine { a with
    serial_lt := fun j hh => a.serial_lt j (ha j hh)
    serial_inj := fun j k hh ht => a.serial_inj j k (ha j hh) (ha k ht)
    accepted_known := fun j ri hh hl => ?_
    number_inj := fun j k hh ht => a.number_inj j k (hli j hh).1 (hli k ht).1
    ticket_issued := fun j hh => ?_
    unconsumed := fun j s hh => a.unconsumed j s (hli j hh).1 }
  · exact (hsl j).ids hh _ (a.accepted_known j ri (ha j hh) hl)
  · obtain ⟨hb, hs⟩ := hli j hh
    have hl := a.ticket_issued j hb
    rw [← hs] at hl
    exact hl

theorem Accounted.append (hle : Legal w.log event)
    (ha : ∀ s requestId, event = .accepted s requestId → s < w.openings ∧
      ∀ j, (w.broker.sessions j).active = true → w.serial j = s →
        requestId ∈ (w.broker.sessions j).requestIds)
    (hi : ∀ s t g, event ≠ .issued s t g)
    (hc : ∀ s t, event = .consumed s t → t < w.issues ∧ ∀ j, Live w j → w.number j ≠ t) :
    Accounted { w with log := w.log ++ [event] } := by
  refine { a with
    accepted_lt := fun s requestId hl => ?_
    accepted_known := fun j requestId hh hl => ?_
    issued_lt := fun s t g hl =>
      a.issued_lt s t g (mem_earlier hl (hi s t g).symm)
    ticket_issued := fun j hli => mem_append_left _ (a.ticket_issued j hli)
    consumed_lt := fun s t hl => ?_
    unconsumed := fun j s hli hl => ?_
    legal := accepts_append a.legal hle }
  · rcases mem_appended hl with he | new
    · exact a.accepted_lt s requestId he
    · exact (ha s requestId new.symm).1
  · rcases mem_appended hl with he | new
    · exact a.accepted_known j requestId hh he
    · exact (ha _ requestId new.symm).2 j hh rfl
  · rcases mem_appended hl with he | new
    · exact a.consumed_lt s t he
    · exact (hc s t new.symm).1
  · rcases mem_appended hl with he | new
    · exact a.unconsumed j s hli he
    · exact (hc s _ new.symm).2 j hli rfl

theorem Accounted.accept {requestId : Bytes} (ha : (w.broker.sessions i).active = true)
    (hf : requestId ∉ (w.broker.sessions i).requestIds)
    (hs : ∀ j, Retains (w.broker.sessions j) (broker.sessions j))
    (hk : requestId ∈ (broker.sessions i).requestIds) :
    Accounted (World.record now { w with broker := broker } (i, .accepted requestId)) := by
  refine (a.retains hs).append ?_ (fun s other new => ?_) nofun nofun
  · exact fun hl => hf (a.accepted_known i requestId ha hl)
  · obtain ⟨rfl, rfl⟩ := Event.accepted.inj new
    refine ⟨a.serial_lt i ha, fun j hh hsa => ?_⟩
    rw [a.serial_inj j i ((hs j).active hh) ha hsa]
    exact hk

theorem Accounted.consume (hl : Live w i)
    (hs : ∀ j, Retains (w.broker.sessions j) (broker.sessions j))
    (hg : (broker.sessions i).ticket.active = false) :
    Accounted (World.record now { w with broker := broker } (i, .consumed)) := by
  have hi := a.ticket_issued i hl
  refine (a.retains hs).append ⟨⟨_, hi⟩, fun s => a.unconsumed i s hl⟩
    nofun nofun fun s t new => ?_
  obtain ⟨rfl, rfl⟩ := Event.consumed.inj new
  refine ⟨a.issued_lt _ _ _ hi, fun j hh hsa => ?_⟩
  -- another live ticket has another number, and this slot's is gone
  have hb : Live w j := ⟨(hs j).active hh.1, (hs j).ticket hh.1 hh.2 ▸ hh.2⟩
  rw [a.number_inj j i hb hl hsa] at hh
  have ha : (broker.sessions i).ticket.active = true := hh.2
  rw [hg] at ha
  cases ha

theorem Accounted.release {g : VdAttachBrokerTicket}
    (hi : .issued (w.serial i) (w.number i) g ∈ w.log) (hb : now < g.expiresAtMs)
    (hc : .consumed (w.serial i) (w.number i) ∈ w.log) :
    Accounted (World.record now w (i, .released g.identity)) := by
  exact a.append ⟨g, hi, rfl, hb, hc⟩ nofun nofun nofun

end

theorem set_same (session : VdAttachBrokerSession) : (broker.set i session).sessions i = session :=
  update_self ..

theorem set_other {j : Fin 4} (ho : j ≠ i) (s : VdAttachBrokerSession) :
    (broker.set i s).sessions j = broker.sessions j :=
  update_of_ne ho ..

theorem Accounted.issue (ha : Accounted w) {ticket : VdAttachBrokerTicket}
    (hac : (w.broker.sessions i).active = true) :
    Accounted (World.record now
      { w with broker := w.broker.set i { w.broker.sessions i with ticket := ticket } }
      (i, .issued ticket)) := by
  have hs (j : Fin 4) : ((w.broker.set i { w.broker.sessions i with ticket := ticket }).sessions
      j).active = (w.broker.sessions j).active ∧ ((w.broker.set i
        { w.broker.sessions i with ticket := ticket }).sessions j).requestIds =
          (w.broker.sessions j).requestIds := by
    by_cases hh : j = i
    · rw [hh, set_same]
      exact ⟨rfl, rfl⟩
    · rw [set_other hh]
      exact ⟨rfl, rfl⟩
  have old {j : Fin 4} (ho : j ≠ i) (hli : Live (World.record now
      { w with broker := w.broker.set i { w.broker.sessions i with ticket := ticket } }
      (i, .issued ticket)) j) : Live w j := by
    have hh := hli
    simp only [Live, World.record, set_other ho] at hh
    exact hh
  have hno {j : Fin 4} (ho : j ≠ i) : update w.number i w.issues j = w.number j :=
    update_of_ne ho ..
  have hb {j : Fin 4} (hli : Live w j) : w.number j < w.issues :=
    ha.issued_lt _ _ _ (ha.ticket_issued j hli)
  constructor
  case serial_lt => exact fun j hh => ha.serial_lt j ((hs j).1 ▸ hh)
  case serial_inj =>
    exact fun j k hh ht => ha.serial_inj j k ((hs j).1 ▸ hh) ((hs k).1 ▸ ht)
  case accepted_lt =>
    exact fun s ri hl => ha.accepted_lt s ri (mem_earlier hl nofun)
  case accepted_known =>
    intro j ri hh hl
    have hk := ha.accepted_known j ri ((hs j).1 ▸ hh) (mem_earlier hl nofun)
    exact (hs j).2.symm ▸ hk
  case number_inj =>
    exact update_apart (fun j ho hli => hb (old ho hli)) fun j k hf hse hh ht =>
      ha.number_inj j k (old hf hh) (old hse ht)
  case issued_lt =>
    intro s t g hl
    rcases mem_appended hl with he | new
    · exact lt_succ_of_lt (ha.issued_lt s t g he)
    · cases new
      exact lt_succ_self _
  case ticket_issued =>
    intro j hli
    by_cases hh : j = i
    · subst hh
      refine mem_append_right _ (mem_singleton.mpr ?_)
      simp only [World.record, update_self, set_same]
    have hl := ha.ticket_issued j (old hh hli)
    refine mem_append_left _ ?_
    simp only [World.record, hno hh, set_other hh]
    exact hl
  case consumed_lt =>
    exact fun s t hl => lt_succ_of_lt (ha.consumed_lt s t (mem_earlier hl nofun))
  case unconsumed =>
    intro j s hli hl
    have he := mem_earlier hl nofun
    by_cases hh : j = i
    · rw [hh] at he
      have hu := ha.consumed_lt s _ he
      simp only [World.record, update_self] at hu
      exact Nat.lt_irrefl _ hu
    · simp only [World.record, hno hh] at he
      exact ha.unconsumed j s (old hh hli) he
  case legal =>
    refine accepts_append ha.legal fun s g hl => ?_
    exact Nat.lt_irrefl _ (ha.issued_lt s _ g hl)

theorem Accounted.opening (ha : Accounted w) {session : VdAttachBrokerSession}
    (hfr : (w.broker.sessions i).active = false) (hem : session.ticket.active = false) :
    Accounted { w with
      broker := w.broker.set i session
      openings := w.openings + 1
      serial := update w.serial i w.openings
      log := w.log ++ [.opened w.openings] } := by
  have hso {j : Fin 4} (ho : j ≠ i) : update w.serial i w.openings j = w.serial j :=
    update_of_ne ho ..
  have hao {j : Fin 4} (ho : j ≠ i) (hac : ((w.broker.set i session).sessions j).active = true) :
      (w.broker.sessions j).active = true := by
    rwa [set_other ho] at hac
  have hlo {j : Fin 4} (hac : ((w.broker.set i session).sessions j).active = true)
      (ht : ((w.broker.set i session).sessions j).ticket.active = true) : j ≠ i ∧ Live w j := by
    have ho : j ≠ i := by
      rintro rfl
      rw [set_same, hem] at ht
      cases ht
    rw [set_other ho] at hac ht
    exact ⟨ho, hac, ht⟩
  constructor
  case serial_lt =>
    intro j hac
    change update w.serial i w.openings j < w.openings + 1
    by_cases hh : j = i
    · rw [hh, update_self]
      exact lt_succ_self _
    · rw [hso hh]
      exact lt_succ_of_lt (ha.serial_lt j (hao hh hac))
  case serial_inj =>
    exact update_apart (fun j ho hac => ha.serial_lt j (hao ho hac)) fun j k hf hs hh hth =>
        ha.serial_inj j k (hao hf hh) (hao hs hth)
  case accepted_lt =>
    intro s ri hl
    exact lt_succ_of_lt (ha.accepted_lt s ri (mem_earlier hl nofun))
  case accepted_known =>
    intro j ri hac hl
    have he := mem_earlier hl nofun
    by_cases hh : j = i
    · rw [hh] at he
      simp only [update_self] at he
      exact absurd (ha.accepted_lt _ _ he) (Nat.lt_irrefl _)
    · simp only [hso hh] at he
      simp only [set_other hh]
      exact ha.accepted_known j ri (hao hh hac) he
  case number_inj =>
    exact fun j k hf hs => ha.number_inj j k (hlo hf.1 hf.2).2 (hlo hs.1 hs.2).2
  case issued_lt =>
    exact fun s t g hl => ha.issued_lt s t g (mem_earlier hl nofun)
  case ticket_issued =>
    intro j hli
    obtain ⟨ho, hb⟩ := hlo hli.1 hli.2
    simp only [hso ho, set_other ho]
    exact mem_append_left _ (ha.ticket_issued j hb)
  case consumed_lt => exact fun s t hl => ha.consumed_lt s t (mem_earlier hl nofun)
  case unconsumed =>
    intro j s hli hl
    exact ha.unconsumed j s (hlo hli.1 hli.2).2 (mem_earlier hl nofun)
  case legal => exact accepts_append ha.legal trivial

end Steps

end VitaDebugger.BrokerLedger
