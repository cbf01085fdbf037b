import Mathlib.Data.Finsupp.Basic
import Mathlib.Data.UInt
import Mathlib.Tactic.Abel
import VitaDebugger.EventOrder

/-! The calls of `vp_record` seen from outside: each is refused or makes one reservation
and then succeeds. The ring moves this book of calls or leaves it alone, so that the
results and the counters can be read off the reservations. -/

namespace VitaDebugger.EventCalls
open ProfilerEvent WrappedPosition EventRing EventOrder List Function Nat RingState

inductive Phase where
  | out
  | waiting
  | refused (call : Call)
  | holding (call : Call)

/-- The calls reserved and not returned. -/
def Phase.held : Phase → Multiset Call
  | .holding call => {call}
  | _ => 0

structure Book where
  phases : ℕ → Phase
  reserved : List Call
  refusals : List Refusal
  returned : List (Call × RecordResult)
  accepted : UInt32
  dropped : UInt32

def having (result : RecordResult) (returned : List (Call × RecordResult)) : List Call :=
  (returned.filter (·.2 = result)).map (·.1)

namespace Book

def setPhase (b : Book) (i : ℕ) (phase : Phase) : Book :=
  { b with phases := update b.phases i phase }

inductive Move : Book → Book → Prop
  | stay {b : Book} : Move b b
  | call {b : Book} (i : ℕ) (idle : b.phases i = .out) : Move b (b.setPhase i .waiting)
  | invalid {b : Book} (call : Call) :
      Move b { b with returned := (call, .invalidArgument) :: b.returned }
  | refuse {b : Book} (i : ℕ) (refusal : Refusal) (here : b.phases i = .waiting) :
      Move b ({ b with refusals := refusal :: b.refusals }.setPhase i (.refused refusal.call))
  | reserve {b : Book} (i : ℕ) (call : Call) (here : b.phases i = .waiting) :
      Move b ({ b with reserved := b.reserved ++ [call] }.setPhase i (.holding call))
  | drop {b : Book} (i : ℕ) (call : Call) (here : b.phases i = .refused call) :
      Move b ({ b with
        dropped := b.dropped + 1
        returned := (call, .dropped) :: b.returned }.setPhase i .out)
  | accept {b : Book} (i : ℕ) (call : Call) (here : b.phases i = .holding call) :
      Move b ({ b with
        accepted := b.accepted + 1
        returned := (call, .ok) :: b.returned }.setPhase i .out)

end Book

/-- The threads hold these calls together. -/
def Flow (phases : ℕ → Phase) (total : Multiset Call) : Prop :=
  ∃ held : ℕ →₀ Multiset Call, (∀ i, held i = (phases i).held) ∧
    (held.sum fun _ calls => calls) = total

theorem Flow.update {ps : ℕ → Phase} {total : Multiset Call} (hf : Flow ps total) (i : ℕ)
    (phase : Phase) : ∃ after, Flow (update ps i phase) after ∧
      after + (ps i).held = total + phase.held := by
  obtain ⟨held, hk, rfl⟩ := hf
  refine ⟨_, ⟨held.update i phase.held, fun j => ?_, rfl⟩, ?_⟩
  · rw [Finsupp.coe_update]
    by_cases hs : j = i
    · subst hs
      rw [update_self, update_self]
    · rw [update_of_ne hs, update_of_ne hs, hk]
  · rw [← hk i]
    exact Finsupp.sum_update_add held i phase.held (fun _ cs => cs) (fun _ => rfl)
      fun _ _ _ => rfl

theorem Flow.out {ps : ℕ → Phase} {total : Multiset Call} (hf : Flow ps total)
    (hq : ∀ i, ps i = .out) : total = 0 := by
  obtain ⟨held, hk, rfl⟩ := hf
  have hn : held = 0 := by
    ext1 i
    rw [hk, hq]
    rfl
  rw [hn, Finsupp.sum_zero_index]

namespace Book

/-- Every reservation is of a call that has succeeded or is about to. -/
structure History (b : Book) : Prop where
  flow : ∃ unfinished, Flow b.phases unfinished ∧
    (b.reserved : Multiset Call) = having .ok b.returned + unfinished
  refused : ∀ i call, b.phases i = .refused call → ∃ refusal ∈ b.refusals, refusal.call = call
  dropped : ∀ call ∈ having .dropped b.returned, ∃ refusal ∈ b.refusals, refusal.call = call
  accepted : b.accepted = .ofNat (having .ok b.returned).length
  counted : b.dropped = .ofNat (having .dropped b.returned).length

theorem refused_of_update {b : Book} (hhi : History b) {i : ℕ} {phase : Phase}
    (ho : ∀ call, phase ≠ .refused call) (j : ℕ) (call : Call)
    (hh : update b.phases i phase j = .refused call) :
    ∃ r ∈ b.refusals, r.call = call := by
  by_cases hs : j = i
  · subst hs
    rw [update_self] at hh
    exact absurd hh (ho call)
  · rw [update_of_ne hs] at hh
    exact hhi.refused j call hh

theorem History.move {b c : Book} (hh : History b) (hm : Move b c) : History c := by
  obtain ⟨u, hf, sum⟩ := hh.flow
  cases hm with
  | stay => exact hh
  | invalid call =>
    exact ⟨⟨u, hf, sum⟩, hh.refused, hh.dropped, hh.accepted, hh.counted⟩
  | call i hi =>
    obtain ⟨after, hf, hb⟩ := hf.update i .waiting
    rw [hi] at hb
    refine ⟨⟨after, hf, ?_⟩, refused_of_update hh nofun, hh.dropped, hh.accepted, hh.counted⟩
    rw [show after = u by simpa [Phase.held] using hb]
    exact sum
  | refuse i r hhe =>
    obtain ⟨after, hf, hb⟩ := hf.update i (.refused r.call)
    rw [hhe] at hb
    refine ⟨⟨after, hf, ?_⟩, fun j call hr => ?_, fun call mem => ?_, hh.accepted, hh.counted⟩
    · rw [show after = u by simpa [Phase.held] using hb]
      exact sum
    · change update b.phases i (.refused r.call) j = .refused call at hr
      by_cases hs : j = i
      · subst hs
        rw [update_self] at hr
        cases hr
        exact ⟨r, mem_cons_self, rfl⟩
      · rw [update_of_ne hs] at hr
        obtain ⟨e, mem, he⟩ := hh.refused j call hr
        exact ⟨e, mem_cons_of_mem _ mem, he⟩
    · obtain ⟨e, hk, he⟩ := hh.dropped call mem
      exact ⟨e, mem_cons_of_mem _ hk, he⟩
  | reserve i call hhe =>
    obtain ⟨after, hf, hb⟩ := hf.update i (.holding call)
    rw [hhe] at hb
    refine ⟨⟨after, hf, ?_⟩, refused_of_update hh nofun, hh.dropped, hh.accepted, hh.counted⟩
    have hg : after = u + {call} := by simpa [Phase.held] using hb
    change ((b.reserved ++ [call] : List Call) : Multiset Call) = _
    rw [hg, ← Multiset.coe_add, sum, add_assoc]
    rfl
  | drop i call hhe =>
    obtain ⟨after, hf, hb⟩ := hf.update i .out
    rw [hhe] at hb
    refine ⟨⟨after, hf, ?_⟩, refused_of_update hh nofun, fun o mem => ?_, hh.accepted, ?_⟩
    · rw [show after = u by simpa [Phase.held] using hb]
      exact sum
    · cases mem_cons.mp mem with
      | inl new => exact new ▸ hh.refused i call hhe
      | inr old => exact hh.dropped o old
    · change b.dropped + 1 = .ofNat ((having .dropped b.returned).length + 1)
      rw [hh.counted, ofNat_succ]
  | accept i call hhe =>
    obtain ⟨after, hf, hb⟩ := hf.update i .out
    rw [hhe] at hb
    refine ⟨⟨after, hf, ?_⟩, refused_of_update hh nofun, hh.dropped, ?_, hh.counted⟩
    · have hsh : u = after + {call} := by simpa [Phase.held] using hb.symm
      change (b.reserved : Multiset Call) = (call :: having .ok b.returned : List Call) + after
      rw [sum, hsh, ← Multiset.cons_coe, ← Multiset.singleton_add]
      abel
    · change b.accepted + 1 = .ofNat ((having .ok b.returned).length + 1)
      rw [hh.accepted, ofNat_succ]

end Book

def phase : Producer → Phase
  | .idle => .out
  | .load _ => .waiting
  | .inspect _ _ _ => .waiting
  | .reserve _ _ _ => .waiting
  | .refuse call => .refused call
  | .write call _ _ => .holding call
  | .publish call _ _ => .holding call
  | .count call => .holding call

def book (s : RingState) : Book where
  phases i := phase (s.producers i)
  reserved := s.reserved
  refusals := s.refusals
  returned := s.returned
  accepted := s.context.accepted
  dropped := s.context.dropped

theorem book_setProducer (s : RingState) (i : ℕ) (producer : Producer) :
    book (s.setProducer i producer) = (book s).setPhase i (phase producer) := by
  unfold book setProducer Book.setPhase
  congr 1
  funext j
  by_cases hs : j = i
  · subst hs
    simp
  · simp [hs]

variable {s : RingState}

theorem move_stay {u : RingState} {i : ℕ} {b after : Producer} (hsa : book u = book s)
    (hh : s.producers i = b) (hst : phase after = phase b) :
    Book.Move (book s) (book (u.setProducer i after)) := by
  have hs : (book s).setPhase i (phase (s.producers i)) = book s := by
    unfold Book.setPhase
    congr 1
    exact update_eq_self i (book s).phases
  rw [book_setProducer, hsa, hst, ← hh, hs]
  exact .stay

theorem consume_frame (s : RingState) :
    s.consume.producers = s.producers ∧ book s.consume = book s := by
  unfold consume
  cases s.consumer with
  | load maxEvents => cases maxEvents <;> exact ⟨rfl, rfl⟩
  | inspect more position =>
    dsimp only
    split <;> exact ⟨rfl, rfl⟩
  | _ => exact ⟨rfl, rfl⟩

/-- The ring refines the book of calls. -/
theorem book_move {t : RingState} (hn : Step s t) : Book.Move (book s) (book t) := by
  cases hn with
  | record i event idle =>
    unfold vpRecord
    split
    · exact .invalid _
    · rw [book_setProducer]
      exact .call i (congrArg phase idle)
  | drain maxEvents idle => exact .stay
  | consume =>
    rw [(consume_frame s).2]
    exact .stay
  | produce i spurious =>
    unfold produce
    cases here : s.producers i with
    | idle => exact .stay
    | load cl => exact move_stay rfl here rfl
    | inspect cl p tc =>
      dsimp only
      split
      · exact move_stay rfl here rfl
      split
      · rw [book_setProducer]
        exact .refuse i _ (congrArg phase here)
      · exact move_stay rfl here rfl
    | reserve cl p tc =>
      dsimp only
      split
      · rw [book_setProducer]
        exact .reserve i cl (congrArg phase here)
      · exact move_stay rfl here rfl
    | refuse cl =>
      rw [book_setProducer]
      exact .drop i cl (congrArg phase here)
    | write cl p tc => exact move_stay rfl here rfl
    | publish cl p tc => exact move_stay rfl here rfl
    | count cl =>
      rw [book_setProducer]
      exact .accept i cl (congrArg phase here)

theorem RingRun.history {context : Context} (ha : context.accepted = 0)
    (hd : context.dropped = 0) (run : RingRun context s) : Book.History (book s) := by
  induction run with
  | refl =>
    exact ⟨⟨0, ⟨0, fun _ => rfl, rfl⟩, rfl⟩, nofun, nofun, ha, hd⟩
  | tail hb hn ih => exact ih.move (book_move hn.1)

/-! Whole runs. -/

/-- No call is in progress. -/
def Quiet (s : RingState) : Prop := (∀ i, s.producers i = .idle) ∧ s.consumer = .idle

/-- The thread writes or publishes the slot of this position. -/
def AtSlot : Producer → UInt32 → Prop
  | .write _ position _, p => position = p
  | .publish _ position _, p => position = p
  | _, _ => False

theorem holds_of_atSlot {k i : ℕ} {p : UInt32} (inv : Inv k s) (access : AtSlot (s.producers i) p) :
    ∃ n, p = .ofNat n ∧ Holds (s.producers i) n := by
  have known := inv.knows i
  cases here : s.producers i with
  | write call position ticket =>
    rw [here] at known access
    exact ⟨ticket, access ▸ known.position, rfl⟩
  | publish call position ticket =>
    rw [here] at known access
    exact ⟨ticket, access ▸ known.1.position, rfl⟩
  | _ =>
    rw [here] at access
    exact access.elim

/-- While a thread copies an event into or out of a slot no other thread does, for every capacity
from 2 to `2 ^ 30`. -/
theorem event_access_exclusive (slots : ℕ → Slot) (k : Fin 30) :
    ∃ context, vpInit slots (.ofNat (2 ^ (k.val + 1))) = some context ∧ ∀ s, RingRun context s →
      (∀ i j p q, AtSlot (s.producers i) p → AtSlot (s.producers j) q →
        slotIndex s.context.capacityMask p = slotIndex s.context.capacityMask q → i = j) ∧
      ∀ more p i q, s.consumer = .copy more p → AtSlot (s.producers i) q →
        slotIndex s.context.capacityMask q ≠ slotIndex s.context.capacityMask p := by
  obtain ⟨context, accepted, started⟩ := vpInit_power slots (succ_pos k.val) k.isLt
  refine ⟨context, accepted, fun s run => ?_⟩
  have inv := RingRun.inv started run
  have window {i n : ℕ} (holds : Holds (s.producers i) n) :
      s.released ≤ n ∧ n < s.released + 2 ^ (k.val + 1) := by
    obtain ⟨_, _, owns⟩ := inv.owns holds
    exact ⟨owns.window, lt_of_lt_of_le owns.lt inv.bounded⟩
  constructor
  · intro i j p q first second same
    obtain ⟨m, rfl, one⟩ := holds_of_atSlot inv first
    obtain ⟨n, rfl, other⟩ := holds_of_atSlot inv second
    rw [inv.geometry.index, inv.geometry.index] at same
    obtain rfl := eq_of_mod_eq (window one) (window other) same
    exact inv.apart i j m one other
  intro more p i q copies access same
  have drains := inv.draining
  rw [copies] at drains
  obtain ⟨-, rfl, full⟩ := drains
  obtain ⟨n, rfl, holds⟩ := holds_of_atSlot inv access
  have next : s.released ≤ s.released ∧ s.released < s.released + 2 ^ (k.val + 1) :=
    ⟨Nat.le_refl _, Nat.lt_add_of_pos_right (Nat.two_pow_pos _)⟩
  rw [inv.geometry.index, inv.geometry.index] at same
  obtain rfl := eq_of_mod_eq (window holds) next same
  obtain ⟨_, _, owns⟩ := inv.owns holds
  exact owns.not_full full

/-- The calls that hold a reservation and have not returned. -/
theorem Flow.holding {phases : ℕ → Phase} {total : Multiset Call} (flow : Flow phases total)
    {call : Call} (mem : call ∈ total) : ∃ i, phases i = .holding call := by
  obtain ⟨held, same, rfl⟩ := flow
  obtain ⟨i, -, mem⟩ := Multiset.mem_sum.mp mem
  rw [same] at mem
  refine ⟨i, ?_⟩
  cases here : phases i with
  | holding other =>
    rw [here, Phase.held, Multiset.mem_singleton] at mem
    rw [mem]
  | _ =>
    rw [here] at mem
    exact absurd mem (Multiset.notMem_zero call)

theorem short_of_few (few : s.reserved.length < 2 ^ 31) : Short (2 ^ 31) s :=
  fun _ call _ => Nat.lt_add_left call.begun few

section Sample

def sampleEvent : Event := { zeroEvent with type := 3 }

/-- One thread records an event, then up to three are drained. -/
def sampleSteps (i : ℕ) (s : RingState) : RingState :=
  if i = 0 then s.vpRecord 0 sampleEvent
  else if i < 7 then s.produce false 0
  else if i = 7 then { s with consumer := .load 3 }
  else s.consume

def sampleRun (context : Context) : ℕ → RingState
  | 0 => .started context
  | n + 1 => sampleSteps n (sampleRun context n)

end Sample

/-! A call that stalls for almost half the range of positions. -/

/-- Thread 0 is about to inspect the slot of position 0; thread 1 records one event after
the other and each is drained. -/
structure Scene (context : Context) (producer : Producer) (consumer : Consumer)
    (reserved released : ℕ) (s : RingState) : Prop where
  run : RingRun context s
  first : s.producers 0 = .inspect ⟨sampleEvent, 0⟩ 0 0
  second : s.producers 1 = producer
  others : ∀ i, 2 ≤ i → s.producers i = .idle
  consumer : s.consumer = consumer
  reserved : s.reserved.length = reserved
  released : s.released = released
  refusals : s.refusals = []

section Scenes
variable {ctx : Context} {p after : Producer} {c : Consumer}
  {reserved released n : ℕ} {t : RingState}

theorem Scene.step (hs : Scene ctx p c reserved released s) (hn : Step s t)
    (hp : t.producers = Function.update s.producers 1 after)
    (hh : t.consumer = s.consumer) (hl : t.reserved.length = n)
    (hfr : t.released = s.released) (hc : t.refusals = s.refusals) (few : n < 2 ^ 31) :
    Scene ctx after c n released t := by
  have hf : t.producers 0 = .inspect ⟨sampleEvent, 0⟩ 0 0 := by
    rw [hp, update_of_ne (by decide), hs.first]
  have hse : t.producers 1 = after := by rw [hp, update_self]
  have ho (i : ℕ) (far : 2 ≤ i) : t.producers i = .idle := by
    rw [hp, update_of_ne (by omega), hs.others i far]
  exact ⟨hs.run.tail ⟨hn, short_of_few (hl ▸ few)⟩, hf, hse, ho,
    hh.trans hs.consumer, hl, hfr.trans hs.released, hc.trans hs.refusals⟩

theorem Scene.drain (hs : Scene ctx .idle c reserved released s) (hn : Step s t)
    {now : Consumer} (hp : t.producers = s.producers) (hh : t.consumer = now)
    (hl : t.reserved = s.reserved) (hfr : t.released = n)
    (hc : t.refusals = s.refusals) (few : reserved < 2 ^ 31) :
    Scene ctx .idle now reserved n t := by
  have hf : t.producers 0 = .inspect ⟨sampleEvent, 0⟩ 0 0 := by rw [hp, hs.first]
  have hse : t.producers 1 = .idle := by rw [hp, hs.second]
  have ho (i : ℕ) (far : 2 ≤ i) : t.producers i = .idle := by
    rw [hp, hs.others i far]
  have hsa : t.reserved.length = reserved := by rw [hl, hs.reserved]
  exact ⟨hs.run.tail ⟨hn, short_of_few (hsa ▸ few)⟩, hf, hse, ho, hh, hsa,
    hfr, hc.trans hs.refusals⟩

section
variable (st : Inv 1 (.started ctx))
include st

theorem Scene.recorded (hs : Scene ctx .idle .idle n n s) (few : n + 1 < 2 ^ 31) :
    ∃ t, Scene ctx .idle .idle (n + 1) n t := by
  let call : Call := ⟨sampleEvent, n⟩
  obtain ⟨a, hs⟩ : ∃ a, Scene ctx (.load call) .idle n n a := by
    have call : Step s (s.setProducer 1 (.load ⟨sampleEvent, s.reserved.length⟩)) :=
      .record 1 sampleEvent hs.second
    rw [hs.reserved] at call
    exact ⟨_, hs.step call rfl rfl hs.reserved rfl rfl (by omega)⟩
  obtain ⟨b, hs⟩ : ∃ b, Scene ctx (.inspect call (.ofNat n) n) .idle n n b := by
    have inv := RingRun.inv st hs.run
    have hl := Step.produce (s := a) 1 false
    unfold produce at hl
    rw [hs.second] at hl
    rw [inv.enqueue, hs.reserved] at hl
    exact ⟨_, hs.step hl rfl rfl hs.reserved rfl rfl (by omega)⟩
  obtain ⟨c, hs⟩ : ∃ c, Scene ctx (.reserve call (.ofNat n) n) .idle n n c := by
    have inv := RingRun.inv st hs.run
    have hfr : (b.slotAt (.ofNat n)).sequence = .ofNat n := by
      rw [inv.geometry.slotAt]
      exact inv.free n (by rw [hs.reserved]) (by rw [hs.released]; omega)
    have hi := Step.produce (s := b) 1 false
    unfold produce at hi
    rw [hs.second] at hi
    dsimp only at hi
    rw [hfr, if_pos (difference_eq_zero.mpr rfl)] at hi
    exact ⟨_, hs.step hi rfl rfl hs.reserved rfl rfl (by omega)⟩
  obtain ⟨d, hs⟩ :
      ∃ d, Scene ctx (.write call (.ofNat n) n) .idle (n + 1) n d := by
    have inv := RingRun.inv st hs.run
    have hn : c.context.enqueuePos = .ofNat n := by rw [inv.enqueue, hs.reserved]
    have hr := Step.produce (s := c) 1 false
    unfold produce at hr
    rw [hs.second] at hr
    dsimp only at hr
    rw [if_pos ⟨hn, rfl⟩] at hr
    refine ⟨_, hs.step hr rfl rfl ?_ rfl rfl few⟩
    change (c.reserved ++ [call]).length = n + 1
    rw [length_append, hs.reserved]
    rfl
  obtain ⟨e, hs⟩ :
      ∃ e, Scene ctx (.publish call (.ofNat n) n) .idle (n + 1) n e := by
    have hw := Step.produce (s := d) 1 false
    unfold produce at hw
    rw [hs.second] at hw
    exact ⟨_, hs.step hw rfl rfl hs.reserved rfl rfl few⟩
  obtain ⟨f, hs⟩ : ∃ f, Scene ctx (.count call) .idle (n + 1) n f := by
    have hp := Step.produce (s := e) 1 false
    unfold produce at hp
    rw [hs.second] at hp
    exact ⟨_, hs.step hp rfl rfl hs.reserved rfl rfl few⟩
  have hf := Step.produce (s := f) 1 false
  unfold produce at hf
  rw [hs.second] at hf
  exact ⟨_, hs.step hf rfl rfl hs.reserved rfl rfl few⟩

theorem Scene.drained
    (hs : Scene ctx .idle .idle (n + 1) n s) (few : n + 1 < 2 ^ 31) :
    ∃ t, Scene ctx .idle .idle (n + 1) (n + 1) t := by
  obtain ⟨a, hs⟩ : ∃ a, Scene ctx .idle (.load 1) (n + 1) n a :=
    ⟨_, hs.drain (.drain 1 hs.consumer) rfl rfl rfl hs.released rfl few⟩
  obtain ⟨b, hs⟩ : ∃ b, Scene ctx .idle (.inspect 0 (.ofNat n)) (n + 1) n b := by
    have hse : Settled a := by
      have hd := (RingRun.inv st hs.run).draining
      rwa [hs.consumer] at hd
    have hl := Step.consume (s := a)
    unfold consume at hl
    rw [hs.consumer] at hl
    rw [show a.context.dequeuePos = .ofNat n by rw [hse.dequeue, hs.released]] at hl
    exact ⟨_, hs.drain hl rfl rfl rfl hs.released rfl few⟩
  obtain ⟨c, hs⟩ : ∃ c, Scene ctx .idle (.copy 0 (.ofNat n)) (n + 1) n c := by
    have inv := RingRun.inv st hs.run
    have hf : (b.slotAt (.ofNat n)).sequence = .ofNat (n + 1) := by
      rw [inv.geometry.slotAt]
      rcases inv.taken n (by rw [hs.released]) (by rw [hs.reserved]; omega) with
        hf | ⟨-, i, hh⟩
      · exact hf.sequence
      match i with
      | 0 => rw [hs.first] at hh; exact hh.elim
      | 1 => rw [hs.second] at hh; exact hh.elim
      | i + 2 => rw [hs.others (i + 2) (by omega)] at hh; exact hh.elim
    have hi := Step.consume (s := b)
    unfold consume at hi
    rw [hs.consumer] at hi
    dsimp only at hi
    rw [hf, ofNat_succ, if_neg (not_not.mpr (difference_eq_zero.mpr rfl))] at hi
    exact ⟨_, hs.drain hi rfl rfl rfl hs.released rfl few⟩
  obtain ⟨d, hs⟩ : ∃ d, Scene ctx .idle (.release 0 (.ofNat n)) (n + 1) n d := by
    have hc := Step.consume (s := c)
    unfold consume at hc
    rw [hs.consumer] at hc
    exact ⟨_, hs.drain hc rfl rfl rfl hs.released rfl few⟩
  obtain ⟨e, hs⟩ :
      ∃ e, Scene ctx .idle (.advance 0 (.ofNat n)) (n + 1) (n + 1) e := by
    have hr := Step.consume (s := d)
    unfold consume at hr
    rw [hs.consumer] at hr
    exact ⟨_, hs.drain hr rfl rfl rfl (by rw [← hs.released]) rfl few⟩
  have ha := Step.consume (s := e)
  unfold consume at ha
  rw [hs.consumer] at ha
  exact ⟨_, hs.drain ha rfl rfl rfl hs.released rfl few⟩

end

end Scenes

end VitaDebugger.EventCalls
