import Mathlib.Data.List.Induction
import Mathlib.Logic.Function.Basic

/-! The life of the authentication listener. Any number of threads call `start`, `run` and
`shutdown`, one access to the shared words at a time; the answers of the system are arbitrary. -/

namespace VitaDebugger.AuthListener
open Function

inductive ListenerState where
  | stopped
  | starting
  | running
  | stopping
  deriving DecidableEq

/-- A registered descriptor: none, one that a thread is closing, or an open one. The code keeps
no record of the thread and the descriptor behind `closing`. -/
inductive Socket where
  | invalid
  | closing (thread fd : ℕ)
  | open (fd : ℕ)
  deriving DecidableEq

inductive Slot where
  | listen
  | active
  deriving DecidableEq

inductive Call where
  | start
  | run
  | shutdown
  deriving DecidableEq

/-- Where a call goes on behind `vd_auth_close_registered`; `ok` is its result so far. -/
inductive Goal where
  | startStop
  | runCheck
  | runBreak
  | runListen (ok : Bool)
  | runStop (ok : Bool)
  | shutdownListen
  | shutdownReturn (ok : Bool)

/-- The slot that is closed on the way to the goal. -/
@[simp] def Goal.slot : Goal → Slot
  | .startStop | .runStop _ | .shutdownReturn _ => .listen
  | _ => .active

/-- The next access of a thread. -/
inductive Phase where
  | idle
  | startListen
  | startActive
  | startClaim
  | startOpen
  | startStore (fd : ℕ)
  | startPublish
  | startStop
  | runEnter
  | runCheck
  | runListen
  | runAccept
  | runStore (fd : ℕ)
  | runServe
  | runStop (ok : Bool)
  | shutdownLoad
  | shutdownClaim (seen : ListenerState)
  | load (goal : Goal)
  | claim (fd : ℕ) (goal : Goal)
  | close (fd : ℕ) (goal : Goal)

def Call.entry : Call → Phase
  | .start => .startListen
  | .run => .runEnter
  | .shutdown => .shutdownLoad

inductive Accepted where
  | timeout
  | failed
  | rejected (fd : ℕ)
  | client (fd : ℕ)

/-- What the system answers: the reserved generation and the new listening socket, or else a
socket left by the failure; `accept`; whether the connections are used up; `close`. -/
structure Answer where
  opened : Except (Option ℕ) ℕ
  accepted : Accepted
  exhausted : Bool
  closed : Bool

inductive Move where
  | call (call : Call)
  | act (answer : Answer)

structure State where
  state : ListenerState
  listenSocket : Socket
  activeSocket : Socket
  threads : ℕ → Phase
  /-- A call of `run` has passed its first check since the last start. -/
  entered : Bool
  /-- A close has failed. -/
  failed : Bool
  /-- A close of an unregistered descriptor has failed, or a descriptor was registered over
  another. -/
  lost : Bool
  /-- The descriptors whose close failed and has not succeeded since. -/
  unclosed : List ℕ
  /-- A call succeeded and left such a descriptor. -/
  early : Call → Bool
  returned : List (Call × Bool)

namespace State

@[simp] def socket (s : State) : Slot → Socket
  | .listen => s.listenSocket
  | .active => s.activeSocket

@[simp] def register (s : State) (value : Socket) : Slot → State
  | .listen => { s with listenSocket := value }
  | .active => { s with activeSocket := value }

@[simp] def goto (s : State) (i : ℕ) (phase : Phase) : State :=
  { s with threads := update s.threads i phase }

@[simp] def leave (s : State) (i : ℕ) (call : Call) (ok : Bool) : State :=
  { s.goto i .idle with
    early := fun c => s.early c || c = call && ok && s.unclosed ≠ []
    returned := (call, ok) :: s.returned }

@[simp] def close (s : State) (registered : Bool) (fd : ℕ) (closed : Bool) : State :=
  { s with
    failed := s.failed || !closed
    lost := s.lost || !closed && !registered
    unclosed := if closed then s.unclosed.filter (· ≠ fd) else fd :: s.unclosed }

@[simp] def resume (s : State) (i : ℕ) (ok : Bool) : Goal → State
  | .startStop => s.goto i .startStop
  | .runCheck => s.goto i .runCheck
  | .runBreak => s.goto i (.load (.runListen false))
  | .runListen before => s.goto i (.load (.runStop (before && ok)))
  | .runStop before => s.goto i (.runStop (before && ok))
  | .shutdownListen => s.goto i (.load (.shutdownReturn ok))
  | .shutdownReturn before => s.leave i .shutdown (before && ok)

/-- The next access of thread `i`. -/
def act (s : State) (i : ℕ) (answer : Answer) : State :=
  match s.threads i with
  | .idle => s
  | .startListen =>
    if s.listenSocket ≠ .invalid then s.leave i .start false else s.goto i .startActive
  | .startActive =>
    if s.activeSocket ≠ .invalid then s.leave i .start false else s.goto i .startClaim
  | .startClaim =>
    if s.state = .stopped then
      { s with state := .starting, entered := false }.goto i .startOpen
    else s.leave i .start false
  | .startOpen =>
    match answer.opened with
    | .ok fd => s.goto i (.startStore fd)
    | .error none => s.goto i .startStop
    | .error (some fd) => (s.close false fd answer.closed).goto i .startStop
  | .startStore fd =>
    { s with lost := s.lost || s.listenSocket ≠ Socket.invalid }.goto i .startPublish
      |>.register (.open fd) .listen
  | .startPublish =>
    if s.state = .starting then
      { s with state := .running, entered := false }.leave i .start true
    else s.goto i (.load .startStop)
  | .startStop => { s with state := .stopped }.leave i .start false
  | .runEnter =>
    if s.state = .running then { s with entered := true }.goto i .runCheck
    else s.leave i .run false
  | .runCheck =>
    if s.state = .running then s.goto i .runListen
    else s.goto i (.load (.runListen true))
  | .runListen =>
    match s.listenSocket with
    | .open _ => s.goto i .runAccept
    | _ => s.goto i (.load (.runListen true))
  | .runAccept =>
    match answer.accepted with
    | .timeout => s.goto i .runCheck
    | .failed => s.goto i (.load (.runListen (s.state = .stopping)))
    | .rejected fd => (s.close false fd answer.closed).goto i .runCheck
    | .client fd => s.goto i (.runStore fd)
  | .runStore fd =>
    { s with lost := s.lost || s.activeSocket ≠ Socket.invalid }.goto i .runServe
      |>.register (.open fd) .active
  | .runServe => s.goto i (.load (if answer.exhausted then .runBreak else .runCheck))
  | .runStop ok => { s with state := .stopped }.leave i .run ok
  | .shutdownLoad => s.goto i (.shutdownClaim s.state)
  | .shutdownClaim seen =>
    if seen = .stopped ∨ seen = .stopping then s.goto i (.load .shutdownListen)
    else if s.state = seen then
      { s with state := .stopping }.goto i (.load .shutdownListen)
    else s.goto i (.shutdownClaim s.state)
  | .load goal =>
    match s.socket goal.slot with
    | .invalid => s.resume i true goal
    | .closing .. => s.resume i false goal
    | .open fd => s.goto i (.claim fd goal)
  | .claim fd goal =>
    if s.socket goal.slot = .open fd then
      (s.goto i (.close fd goal)).register (.closing i fd) goal.slot
    else s.goto i (.load goal)
  | .close fd goal =>
    ((s.close true fd answer.closed).register
      (if answer.closed then .invalid else .open fd) goal.slot).resume i answer.closed goal

/-- A call of thread `i` or its next access. -/
def move (s : State) (i : ℕ) : Move → State
  | .call call => match s.threads i with
    | .idle => s.goto i call.entry
    | _ => s
  | .act answer => s.act i answer

end State

/-- The listener that `vd_attach_auth_listener_init` leaves. -/
def initial : State :=
  ⟨.stopped, .invalid, .invalid, fun _ => .idle, false, false, false, [], fun _ => false, []⟩

/-- A run from the initialised listener: which thread does what. -/
def play (script : List (ℕ × Move)) : State :=
  script.foldl (fun s step => s.move step.1 step.2) initial

/-- What some thread has to see to: the state, a descriptor that is being closed, an open one. -/
inductive Duty where
  | stop
  | close (slot : Slot)
  | clean (slot : Slot)

@[simp] def Due (s : State) : Duty → Prop
  | .stop => s.entered = true ∧ s.state ≠ .stopped
  | .close slot => ∃ j fd, s.socket slot = .closing j fd
  | .clean slot => s.failed = false ∧ (slot = .listen → s.entered = true) ∧
      ∃ fd, s.socket slot = .open fd

@[simp] def Goal.runs : Goal → Bool
  | .runCheck | .runBreak | .runListen _ | .runStop _ => true
  | _ => false

/-- The duties that the rest of a call discharges. -/
@[simp] def Phase.covers (phase : Phase) : Duty → Bool
  | .stop => match phase with
    | .runCheck | .runListen | .runAccept | .runStore _ | .runServe | .runStop _ => true
    | .load goal | .claim _ goal | .close _ goal => goal.runs
    | _ => false
  | .close slot => match phase with
    | .close _ goal => goal.slot = slot
    | _ => false
  | .clean slot => match phase with
    | .startPublish | .runCheck | .runListen | .runAccept | .runStore _ => slot = .listen
    | .runServe => true
    | .load goal | .claim _ goal | .close _ goal => slot = .listen ∨ goal.slot = slot
    | _ => false

def Inv (s : State) : Prop := ∀ duty, Due s duty → ∃ i, (s.threads i).covers duty = true

@[simp] theorem Duty.all {p : Duty → Prop} : (∀ duty, p duty) ↔
    p .stop ∧ p (.close .listen) ∧ p (.close .active) ∧ p (.clean .listen) ∧
      p (.clean .active) := by
  refine ⟨fun all => ⟨all _, all _, all _, all _, all _⟩, ?_⟩
  rintro ⟨_, _, _, _, _⟩ (_ | (_ | _) | (_ | _)) <;> assumption

variable {s t : State} {i : ℕ} {p : Phase}

/-- A duty after the step of a thread is its own, or was that of another thread before. -/
theorem Inv.step (inv : Inv s) (ht : t.threads = update s.threads i p)
    (hk : ∀ d, Due t d →
      p.covers d = true ∨ (Due s d ∧ (s.threads i).covers d = false)) : Inv t := by
  intro d due
  rw [ht]
  rcases hk d due with own | ⟨hb, ho⟩
  · exact ⟨i, by rw [update_self, own]⟩
  · obtain ⟨j, hc⟩ := inv d hb
    have hot : j ≠ i := by
      rintro rfl
      exact absurd (ho.symm.trans hc) nofun
    exact ⟨j, by rwa [update_of_ne hot]⟩

theorem Inv.act (inv : Inv s) (i : ℕ) (a : Answer) : Inv (s.act i a) := by
  unfold State.act
  cases hh : s.threads i with
  | idle => exact inv
  | startStore | startStop | runStore | runStop | shutdownLoad =>
    exact inv.step rfl (by simp_all)
  | startListen | startActive | startClaim | startOpen | startPublish | runEnter | runCheck
  | runListen | runAccept =>
    dsimp only
    split
    all_goals exact inv.step rfl (by simp_all)
  | runServe => cases a.exhausted <;> exact inv.step rfl (by simp_all)
  | shutdownClaim seen =>
    dsimp only
    split
    · exact inv.step rfl (by simp_all)
    split
    all_goals exact inv.step rfl (by simp_all)
  | load g =>
    dsimp only
    split
    case h_1 | h_2 => cases g <;> exact inv.step rfl (by simp_all)
    case h_3 => exact inv.step rfl (by simp_all)
  | claim fd g =>
    dsimp only
    split
    · cases g <;> exact inv.step rfl (by simp_all)
    · exact inv.step rfl (by simp_all)
  | close fd g =>
    cases hc : a.closed
    all_goals cases g <;> exact inv.step rfl (by simp_all)

theorem Inv.move (inv : Inv s) (i : ℕ) (move : Move) : Inv (s.move i move) := by
  cases move with
  | act a => exact inv.act i a
  | call call =>
    unfold State.move
    dsimp only
    split
    case h_1 hh => cases call <;> exact inv.step rfl (by simp_all)
    case h_2 => exact inv

theorem inv_play (script : List (ℕ × Move)) : Inv (play script) := by
  induction script using List.reverseRecOn with
  | nil => simp [Inv, play, initial]
  | append_singleton script step inv =>
    rw [play, List.foldl_append]
    exact inv.move _ _

/-- When `run` was entered since the last start and no close failed, the listener is stopped once
the calls have returned, and a start is not refused for its state. -/
theorem idle_listener_starts (script : List (ℕ × Move))
    (idle : ∀ i, (play script).threads i = .idle)
    (entered : (play script).entered = true) (closed : (play script).failed = false) :
    (play script).state = .stopped ∧ (∀ slot, (play script).socket slot = .invalid) ∧
    ∀ i answer, (play (script ++ [(i, .call .start), (i, .act answer), (i, .act answer),
      (i, .act answer)])).threads i = .startOpen := by
  have hd (duty : Duty) : ¬Due (play script) duty := by
    intro due
    obtain ⟨i, hc⟩ := inv_play script duty due
    rw [idle i] at hc
    cases duty <;> exact nomatch hc
  have stopped : (play script).state = .stopped := by
    by_contra ho
    exact hd .stop ⟨entered, ho⟩
  have hf (slot : Slot) : (play script).socket slot = .invalid := by
    cases hh : (play script).socket slot with
    | invalid => rfl
    | closing j fd => exact absurd ⟨j, fd, hh⟩ (hd (.close slot))
    | «open» fd => exact absurd ⟨closed, fun _ => entered, fd, hh⟩ (hd (.clean slot))
  refine ⟨stopped, hf, fun i answer => ?_⟩
  have hl : (play script).listenSocket = .invalid := hf .listen
  have ha : (play script).activeSocket = .invalid := hf .active
  rw [play, List.foldl_append, ← play]
  simp [State.move, State.act, Call.entry, idle, hl, ha, stopped]

/-- Thread `i` makes a call that takes `n` accesses, with one answer for all of them. -/
def calls (i : ℕ) (call : Call) (n : ℕ) (answer : Answer) : List (ℕ × Move) :=
  (i, .call call) :: List.replicate n (i, .act answer)

def served : Answer := ⟨.ok 3, .client 4, false, true⟩

def servedRun : List (ℕ × Move) :=
  calls 0 .start 6 served ++ calls 0 .run 6 served ++ calls 1 .shutdown 10 served ++
    List.replicate 10 (0, .act served)

theorem idle_listener_starts_served : (play servedRun).state = .stopped ∧
    (∀ slot, (play servedRun).socket slot = .invalid) ∧
    ∀ i answer, (play (servedRun ++ [(i, .call .start), (i, .act answer), (i, .act answer),
      (i, .act answer)])).threads i = .startOpen :=
  idle_listener_starts servedRun (fun | 0 => rfl | 1 => rfl | _ + 2 => rfl) rfl rfl

/-- A `run` that comes behind the shutdown leaves the listener stopping, and no start helps. -/
theorem late_run_blocks_start : ∃ script, (∀ i, (play script).threads i = .idle) ∧
    (play script).failed = false ∧ (play script).state = .stopping ∧
    (play script).returned = [(.run, false), (.shutdown, true), (.start, true)] ∧
    (play (script ++ calls 0 .start 3 served)).returned.head? = some (.start, false) :=
  ⟨calls 0 .start 6 served ++ calls 1 .shutdown 10 served ++ calls 0 .run 1 served,
    (fun | 0 => rfl | 1 => rfl | _ + 2 => rfl), rfl, rfl, rfl, rfl⟩

@[simp] def Goal.call : Goal → Call
  | .startStop => .start
  | .runCheck | .runBreak | .runListen _ | .runStop _ => .run
  | .shutdownListen | .shutdownReturn _ => .shutdown

/-- The call that a thread is in. -/
@[simp] def Phase.call : Phase → Option Call
  | .idle => none
  | .startListen | .startActive | .startClaim | .startOpen | .startStore _ | .startPublish
  | .startStop => some .start
  | .runEnter | .runCheck | .runListen | .runAccept | .runStore _ | .runServe | .runStop _ =>
    some .run
  | .shutdownLoad | .shutdownClaim _ => some .shutdown
  | .load goal | .claim _ goal | .close _ goal => some goal.call

/-- A shutdown that has found no connection, or closed it, and goes on to the listening socket. -/
@[simp] def Phase.looked : Phase → Bool
  | .load (.shutdownReturn ok) | .claim _ (.shutdownReturn ok) | .close _ (.shutdownReturn ok) => ok
  | _ => false

/-- What the callers and the system may do. Starts do not overlap, nor do runs. A descriptor that
is not registered closes; no client arrives while a connection is registered; and a connection
closes when a shutdown has already looked for it. -/
def Permitted (s : State) (i : ℕ) : Move → Prop
  | .call call => call = .shutdown ∨ ∀ j, (s.threads j).call ≠ some call
  | .act answer => match s.threads i with
    | .startOpen => ∀ fd, answer.opened = .error (some fd) → answer.closed = true
    | .runAccept => (∀ fd, answer.accepted = .rejected fd → answer.closed = true) ∧
      ∀ fd, answer.accepted = .client fd → s.activeSocket = .invalid
    | .close _ goal => goal.slot = .active → answer.closed = true ∨
      ∀ j, (s.threads j).looked = false
    | _ => True

/-- Every step of the script is permitted in the state that it finds. -/
def Obeyed : State → List (ℕ × Move) → Prop
  | _, [] => True
  | s, step :: rest => Permitted s step.1 step.2 ∧ Obeyed (s.move step.1 step.2) rest

/-- The state that a start has claimed, or that a run has found. -/
@[simp] def Phase.begun : Phase → Option ListenerState
  | .startOpen | .startStore _ | .startPublish | .startStop => some .starting
  | .runCheck | .runListen | .runAccept | .runStore _ | .runServe | .runStop _ => some .running
  | .load goal | .claim _ goal | .close _ goal => match goal.call with
    | .start => some .starting
    | .run => some .running
    | .shutdown => none
  | _ => none

/-- One thread at most is in a start, in a run, and behind the claim of either. -/
structure Serial (s : State) : Prop where
  single : ∀ i j call, call ≠ .shutdown → (s.threads i).call = some call →
    (s.threads j).call = some call → i = j
  alone : ∀ i j, (s.threads i).begun ≠ none → (s.threads j).begun ≠ none → i = j
  begun : ∀ i state, (s.threads i).begun = some state → s.state = state ∨ s.state = .stopping

theorem Phase.begun_cases {state : ListenerState} (begun : p.begun = some state) :
    state = .starting ∧ p.call = some .start ∨ state = .running ∧ p.call = some .run := by
  cases p with
  | load goal | claim _ goal | close _ goal => cases goal <;> simp_all
  | _ => simp_all

/-- No other thread is behind a claim. -/
@[simp] def Solitary (s : State) (i : ℕ) : Prop := ∀ j, j ≠ i → (s.threads j).begun = none

theorem Serial.solitary (serial : Serial s) (own : (s.threads i).begun ≠ none) : Solitary s i := by
  intro j other
  by_contra begun
  exact other (serial.alone j i begun own)

theorem Serial.solitary_of_stopped (serial : Serial s) (stopped : s.state = .stopped) :
    Solitary s i := by
  intro j _
  refine Option.eq_none_iff_forall_ne_some.mpr fun state begun => ?_
  have found := serial.begun j state begun
  obtain ⟨rfl, _⟩ | ⟨rfl, _⟩ := Phase.begun_cases begun <;> simp_all

/-- A run that finds the listener running is behind the last start, and the only run. -/
theorem Serial.solitary_of_running (serial : Serial s) (running : s.state = .running)
    (own : (s.threads i).call = some .run) : Solitary s i := by
  intro j other
  refine Option.eq_none_iff_forall_ne_some.mpr fun state begun => ?_
  have found := serial.begun j state begun
  obtain ⟨rfl, _⟩ | ⟨rfl, run⟩ := Phase.begun_cases begun
  · simp_all
  · exact other (serial.single j i .run nofun run own)

theorem Serial.step (serial : Serial s) (ht : t.threads = update s.threads i p)
    (same : ∀ call, p.call = some call → call = .shutdown ∨ (s.threads i).call = some call ∨
      ∀ j, (s.threads j).call ≠ some call)
    (own : ∀ state, p.begun = some state → t.state = state ∨ t.state = .stopping)
    (others : Solitary s i ∨ (p.begun ≠ none → (s.threads i).begun ≠ none) ∧
      (t.state = s.state ∨ t.state = .stopping)) : Serial t := by
  have keeps {j : ℕ} (other : j ≠ i) : t.threads j = s.threads j := by rw [ht, update_of_ne other]
  have here : t.threads i = p := by rw [ht, update_self]
  refine ⟨fun j k call starts hj hk => ?_, fun j k hj hk => ?_, fun j state hj => ?_⟩
  · by_cases hji : j = i <;> by_cases hki : k = i
    · rw [hji, hki]
    · subst hji
      obtain shuts | old | fresh := same call (here ▸ hj)
      · exact absurd shuts starts
      · exact serial.single j k call starts old (keeps hki ▸ hk)
      · exact absurd (keeps hki ▸ hk) (fresh k)
    · subst hki
      obtain shuts | old | fresh := same call (here ▸ hk)
      · exact absurd shuts starts
      · exact serial.single j k call starts (keeps hji ▸ hj) old
      · exact absurd (keeps hji ▸ hj) (fresh j)
    · exact serial.single j k call starts (keeps hji ▸ hj) (keeps hki ▸ hk)
  · rcases others with solitary | ⟨begun, -⟩
    · have moved {j : ℕ} (hj : (t.threads j).begun ≠ none) : j = i := by
        by_contra other
        exact hj (keeps other ▸ solitary j other)
      exact (moved hj).trans (moved hk).symm
    · have before {j : ℕ} (hj : (t.threads j).begun ≠ none) : (s.threads j).begun ≠ none := by
        by_cases hi : j = i
        · subst hi
          exact begun (here ▸ hj)
        · rwa [← keeps hi]
      exact serial.alone j k (before hj) (before hk)
  · by_cases hi : j = i
    · subst hi
      exact own state (here ▸ hj)
    rw [keeps hi] at hj
    rcases others with solitary | ⟨-, same | stopping⟩
    · simp_all
    · exact same ▸ serial.begun j state hj
    · exact Or.inr stopping

theorem Serial.act (serial : Serial s) (i : ℕ) (a : Answer) : Serial (s.act i a) := by
  have found := serial.begun i
  unfold State.act
  cases hh : s.threads i with
  | idle => exact serial
  | startStop | runStop =>
    exact serial.step rfl (by simp) (by simp) (.inl (serial.solitary (by simp [hh])))
  | startStore | runStore =>
    exact serial.step rfl (by simp [hh]) (by simpa [hh] using found) (.inr (by simp [hh]))
  | shutdownLoad => exact serial.step rfl (by simp) (by simp) (.inr (by simp))
  | runServe =>
    cases a.exhausted
    all_goals exact serial.step rfl (by simp [hh]) (by simpa [hh] using found) (.inr (by simp [hh]))
  | startListen | startActive =>
    dsimp only
    split
    all_goals exact serial.step rfl (by simp [hh]) (by simp) (.inr (by simp))
  | runCheck | runListen | runAccept | startOpen =>
    dsimp only
    split
    all_goals exact serial.step rfl (by simp [hh]) (by simpa [hh] using found) (.inr (by simp [hh]))
  | startClaim =>
    -- a start begins only from `stopped`, where no other thread has begun
    dsimp only
    split
    case isTrue stopped =>
      exact serial.step rfl (by simp [hh]) (by simp) (.inl (serial.solitary_of_stopped stopped))
    case isFalse => exact serial.step rfl (by simp) (by simp) (.inr (by simp))
  | startPublish =>
    dsimp only
    split
    · exact serial.step rfl (by simp) (by simp) (.inl (serial.solitary (by simp [hh])))
    · exact serial.step rfl (by simp [hh]) (by simpa [hh] using found) (.inr (by simp [hh]))
  | runEnter =>
    dsimp only
    split
    case isTrue running =>
      exact serial.step rfl (by simp [hh]) (by simp [running])
        (.inl (serial.solitary_of_running running (by simp [hh])))
    case isFalse => exact serial.step rfl (by simp) (by simp) (.inr (by simp))
  | shutdownClaim seen =>
    dsimp only
    split
    · exact serial.step rfl (by simp) (by simp) (.inr (by simp))
    split
    all_goals exact serial.step rfl (by simp) (by simp) (.inr (by simp))
  | load g =>
    rw [hh] at found
    dsimp only
    split
    case h_1 | h_2 =>
      cases g
      all_goals exact serial.step rfl (by simp [hh]) (by simp_all) (.inr (by simp [hh]))
    case h_3 => exact serial.step rfl (by simp [hh]) found (.inr (by simp [hh]))
  | claim fd g =>
    rw [hh] at found
    dsimp only
    split
    · cases g
      all_goals exact serial.step rfl (by simp [hh]) found (.inr (by simp [hh]))
    · exact serial.step rfl (by simp [hh]) found (.inr (by simp [hh]))
  | close fd g =>
    rw [hh] at found
    cases g
    all_goals exact serial.step rfl (by simp [hh]) (by simp_all) (.inr (by simp [hh]))

theorem Serial.move (serial : Serial s) {move : Move} (permitted : Permitted s i move) :
    Serial (s.move i move) := by
  cases move with
  | act a => exact serial.act i a
  | call call =>
    unfold State.move
    dsimp only
    split
    case h_2 => exact serial
    case h_1 hh =>
      have fresh : call = .shutdown ∨ ∀ j, (s.threads j).call ≠ some call := permitted
      have enters : call.entry.call = some call := by cases call <;> rfl
      have idle : call.entry.begun = none := by cases call <;> rfl
      refine serial.step rfl (fun other same => ?_) (fun state begun => ?_) (.inr ⟨?_, .inl rfl⟩)
      · cases enters.symm.trans same
        exact fresh.imp_right .inr
      · cases idle.symm.trans begun
      · exact fun begun => absurd idle begun

@[simp] def Socket.held : Socket → List ℕ
  | .invalid => []
  | .closing _ fd | .open fd => [fd]

/-- What a call has seen to on the way to the goal. -/
@[simp] def Goal.Fits (s : State) : Goal → Prop
  | .runStop ok => ok = true → s.activeSocket = .invalid
  | .shutdownReturn ok => ok = true → s.unclosed ⊆ s.listenSocket.held
  | _ => True

/-- What thread `j` in a phase relies on. -/
@[simp] def Fits (s : State) (j : ℕ) : Phase → Prop
  | .startActive | .startClaim | .startOpen | .startStore _ => s.listenSocket = .invalid
  | .runStore _ => s.activeSocket = .invalid
  | .runStop ok => ok = true → s.listenSocket = .invalid ∧ s.activeSocket = .invalid
  | .load goal | .claim _ goal => goal.Fits s
  | .close fd goal => s.socket goal.slot = .closing j fd ∧ goal.Fits s
  | _ => True

/-- A descriptor that did not close is registered, and no stop was reported that left one. -/
@[simp] def Owed (s : State) : Prop :=
  s.lost = false ∧ s.early .run = false ∧ s.early .shutdown = false ∧
  s.unclosed ⊆ s.listenSocket.held ++ s.activeSocket.held

structure Kept (s : State) : Prop where
  fits : ∀ j, Fits s j (s.threads j)
  owed : Owed s

/-- A slot after a step of thread `i` still has what another thread is closing. -/
@[simp] def Spared (i : ℕ) (before after : Socket) : Prop :=
  ∀ j fd, before = .closing j fd → i = j ∨ after = .closing j fd

/-- A step of thread `i` leaves what the other threads rely on: only a start and a run register
a descriptor. -/
@[simp] def Frame (s t : State) (i : ℕ) : Prop :=
  Spared i s.listenSocket t.listenSocket ∧ Spared i s.activeSocket t.activeSocket ∧
  (s.listenSocket = .invalid → t.listenSocket = .invalid ∨ ∃ fd, s.threads i = .startStore fd) ∧
  (s.activeSocket = .invalid → t.activeSocket = .invalid ∨ ∃ fd, s.threads i = .runStore fd) ∧
  (s.unclosed ⊆ s.listenSocket.held → t.unclosed ⊆ t.listenSocket.held ∨
    ∀ j, (s.threads j).looked = false)

theorem Fits.other {j : ℕ} (serial : Serial s) (ho : i ≠ j) (frame : Frame s t i)
    (hf : Fits s j (s.threads j)) : Fits t j (s.threads j) := by
  obtain ⟨listening, serving, listen, active, looked⟩ := frame
  have start := serial.single i j .start nofun
  have alone := serial.alone i j
  cases hp : s.threads j with
  | load goal | claim _ goal | close _ goal =>
    rw [hp] at hf start alone
    have own := fun unseen : ∀ j, (s.threads j).looked = false => hp ▸ unseen j
    cases goal <;>
      grind [Goal.Fits, Fits, Phase.begun, Phase.call, Goal.call, Phase.looked, Spared, Goal.slot,
        State.socket]
  | _ =>
    rw [hp] at hf start alone
    grind [Fits, Phase.begun, Phase.call]

theorem Kept.step (kept : Kept s) (serial : Serial s) (ht : t.threads = update s.threads i p)
    (own : Fits s i (s.threads i) → Owed s → Fits t i p ∧ Owed t ∧ Frame s t i) : Kept t := by
  obtain ⟨here, owed, frame⟩ := own (kept.fits i) kept.owed
  refine ⟨fun j => ?_, owed⟩
  rw [ht]
  rcases eq_or_ne i j with rfl | other
  · rwa [update_self]
  rw [update_of_ne other.symm]
  exact Fits.other serial other frame (kept.fits j)

theorem filter_subset_iff {l held : List ℕ} {fd : ℕ} :
    l.filter (fun x => !decide (x = fd)) ⊆ held ↔ l ⊆ fd :: held := by
  grind

theorem subset_append_singleton {l held : List ℕ} {fd : ℕ} : l ⊆ held ++ [fd] ↔ l ⊆ fd :: held := by
  grind

theorem forall_mem_eq_iff {l : List ℕ} {fd : ℕ} : (∀ a ∈ l, a = fd) ↔ l ⊆ [fd] := by
  grind

theorem Kept.act (kept : Kept s) (serial : Serial s) {a : Answer}
    (permitted : Permitted s i (.act a)) : Kept (s.act i a) := by
  unfold Permitted at permitted
  unfold State.act
  cases hh : s.threads i with
  | idle => exact kept
  | startStop | shutdownLoad | startStore | runStore =>
    exact kept.step serial rfl fun _ _ => by simp_all
  | runStop ok => cases ok <;> exact kept.step serial rfl fun _ _ => by simp_all
  | startListen | startActive | startClaim | startPublish | runEnter | runCheck | runListen =>
    dsimp only
    split
    all_goals exact kept.step serial rfl fun _ _ => by simp_all
  | startOpen | runAccept =>
    -- the new descriptor is held by this thread until it is registered
    dsimp only
    split
    all_goals
      exact kept.step serial rfl fun _ _ => by
        simp_all [filter_subset_iff, List.subset_cons_of_subset]
  | runServe => cases a.exhausted <;> exact kept.step serial rfl fun _ _ => by simp_all
  | shutdownClaim seen =>
    dsimp only
    split
    · exact kept.step serial rfl fun _ _ => by simp_all
    split
    all_goals exact kept.step serial rfl fun _ _ => by simp_all
  | load g =>
    dsimp only
    split
    case h_1 | h_2 => cases g <;> exact kept.step serial rfl fun _ _ => by simp_all
    case h_3 => exact kept.step serial rfl fun _ _ => by simp_all
  | claim fd g =>
    dsimp only
    split
    · cases g <;> exact kept.step serial rfl fun _ _ => by simp_all
    · exact kept.step serial rfl fun _ _ => by simp_all
  | close fd g =>
    dsimp only
    cases hc : a.closed
    all_goals
      cases g with
      | shutdownReturn ok =>
        refine kept.step serial rfl fun here _ => ?_
        rw [hh] at here
        obtain ⟨closing, closed⟩ := here
        cases ok <;> simp_all [filter_subset_iff, forall_mem_eq_iff]
      | _ =>
        exact kept.step serial rfl fun _ _ => by
          simp_all [filter_subset_iff, subset_append_singleton, forall_mem_eq_iff]

theorem Kept.move (kept : Kept s) (serial : Serial s) {move : Move}
    (permitted : Permitted s i move) : Kept (s.move i move) := by
  cases move with
  | act a => exact kept.act serial permitted
  | call call =>
    unfold State.move
    dsimp only
    split
    case h_1 => cases call <;> exact kept.step serial rfl fun _ _ => by simp_all [Call.entry]
    case h_2 => exact kept

theorem kept_run {script : List (ℕ × Move)} (kept : Kept s) (serial : Serial s)
    (obeyed : Obeyed s script) : Kept (script.foldl (fun s step => s.move step.1 step.2) s) := by
  induction script generalizing s with
  | nil => exact kept
  | cons step script ih =>
    obtain ⟨permitted, obeyed⟩ := obeyed
    exact ih (kept.move serial permitted) (serial.move permitted) obeyed

/-- In every run whose steps are permitted, a descriptor that did not close stays registered: none
is registered over it, and none that is not registered fails to close. No run and no shutdown
succeeds and leaves one. -/
theorem unclosed_registered (script : List (ℕ × Move)) (obeyed : Obeyed initial script) :
    (play script).unclosed ⊆ (play script).listenSocket.held ++ (play script).activeSocket.held ∧
    (play script).lost = false ∧
    (play script).early .run = false ∧ (play script).early .shutdown = false := by
  have serial : Serial initial := ⟨nofun, nofun, nofun⟩
  have kept : Kept initial := ⟨fun _ => trivial, rfl, rfl, rfl, List.nil_subset _⟩
  obtain ⟨lost, run, shutdown, registered⟩ := (kept_run kept serial obeyed).owed
  exact ⟨registered, lost, run, shutdown⟩

/-- Both closes of a shutdown fail, and the run closes the descriptors again. The start, the run
and the shutdown are calls of different threads. -/
def retriedRun : List (ℕ × Move) :=
  calls 0 .start 6 served ++ calls 1 .run 5 served ++
    calls 2 .shutdown 8 { served with closed := false } ++ List.replicate 11 (1, .act served)

theorem unclosed_registered_retried : (play retriedRun).unclosed ⊆
      (play retriedRun).listenSocket.held ++ (play retriedRun).activeSocket.held ∧
    (play retriedRun).lost = false ∧
    (play retriedRun).early .run = false ∧ (play retriedRun).early .shutdown = false := by
  refine unclosed_registered retriedRun ?_
  have opened (fd : ℕ) : served.opened ≠ .error (some fd) := nofun
  have accepted (fd : ℕ) : served.accepted ≠ .rejected fd := nofun
  have start : ∀ j, (initial.threads j).call ≠ some .start := nofun
  refine ⟨.inr start, trivial, trivial, trivial, fun fd left => absurd left (opened fd), trivial,
    trivial, .inr ?_, trivial, trivial, trivial,
    ⟨fun fd rejected => absurd rejected (accepted fd), fun _ _ => rfl⟩, trivial, .inl rfl, trivial,
    trivial, trivial, trivial, fun _ => .inr ?_, trivial, trivial, nofun, trivial, trivial, trivial,
    fun _ => .inl rfl, trivial, trivial, trivial, trivial, nofun, trivial, trivial, trivial⟩
  · rintro (_ | _) <;> nofun
  · rintro (_ | _ | _ | _) <;> rfl

/-- A connection that did not close is forgotten for the next one, and the shutdown and the run
succeed; and the descriptor of a rejected peer that did not close is nowhere registered. -/
theorem failed_close_forgotten : (∃ script, (∀ slot, (play script).socket slot = .invalid) ∧
    (play script).unclosed = [4] ∧
    (play script).returned = [(.run, true), (.shutdown, true), (.start, true)]) ∧
    ∃ script, (play script).unclosed = [7] ∧ (play script).socket .listen = .open 3 ∧
      (play script).socket .active = .invalid :=
  ⟨⟨calls 0 .start 6 served ++ calls 0 .run 9 { served with closed := false } ++
      List.replicate 4 (0, .act { served with accepted := .client 5 }) ++
      calls 1 .shutdown 8 served ++ List.replicate 6 (0, .act served),
      (fun | .listen => rfl | .active => rfl), rfl, rfl⟩,
    calls 0 .start 6 served ++
      calls 0 .run 4 { served with accepted := .rejected 7, closed := false }, rfl, rfl, rfl⟩

end VitaDebugger.AuthListener
