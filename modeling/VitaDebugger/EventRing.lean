import Mathlib.Logic.Function.Basic
import Mathlib.Logic.Relation
import VitaDebugger.ProfilerEvent
import VitaDebugger.WrappedPosition

/-! The profiler's event ring: any number of threads in `vp_record` and one in
`vp_drain`. One step is one access to shared memory; a compare-exchange may fail
although the value is the expected one. Beside the program's own variables the state
keeps a history: the calls in the order of their reservations, the events handed out,
and what each call returned. -/

namespace VitaDebugger.EventRing
open ProfilerEvent WrappedPosition

abbrev maxCapacity : UInt32 := 0x40000000

structure Slot where
  sequence : UInt32
  event : Event

structure Context where
  slots : ℕ → Slot
  capacity : UInt32
  capacityMask : UInt32
  enqueuePos : UInt32
  dequeuePos : UInt32
  accepted : UInt32
  dropped : UInt32

def vpInit (slots : ℕ → Slot) (capacity : UInt32) : Option Context :=
  if capacity < 2 ∨ maxCapacity < capacity ∨ capacity &&& (capacity - 1) ≠ 0 then none
  else some
    { slots := fun i => if i < capacity.toNat then ⟨UInt32.ofNat i, zeroEvent⟩ else slots i
      capacity
      capacityMask := capacity - 1
      enqueuePos := 0
      dequeuePos := 0
      accepted := 0
      dropped := 0 }

inductive RecordResult where
  | ok
  | dropped
  | invalidArgument
  deriving DecidableEq

/-- One call of `vp_record`, with the number of reservations made before it. -/
structure Call where
  event : Event
  begun : ℕ
  deriving DecidableEq

/-- Where a thread is in `vp_record`. `ticket` is the number of reservations there were
when `position` was loaded. -/
inductive Producer where
  | idle
  | load (call : Call)
  | inspect (call : Call) (position : UInt32) (ticket : ℕ)
  | reserve (call : Call) (position : UInt32) (ticket : ℕ)
  | refuse (call : Call)
  | write (call : Call) (position : UInt32) (ticket : ℕ)
  | publish (call : Call) (position : UInt32) (ticket : ℕ)
  | count (call : Call)

def Producer.call? : Producer → Option Call
  | .idle => none
  | .load call => some call
  | .inspect call _ _ => some call
  | .reserve call _ _ => some call
  | .refuse call => some call
  | .write call _ _ => some call
  | .publish call _ _ => some call
  | .count call => some call

/-- Where the draining thread is in `vp_drain`, which may return `more` further events
after the one at `position`. -/
inductive Consumer where
  | idle
  | load (maxEvents : ℕ)
  | inspect (more : ℕ) (position : UInt32)
  | copy (more : ℕ) (position : UInt32)
  | release (more : ℕ) (position : UInt32)
  | advance (more : ℕ) (position : UInt32)

/-- The decision of a call to drop its event, with the reservations and the releases
made so far. -/
structure Refusal where
  call : Call
  ticket : ℕ
  reserved : ℕ
  released : ℕ

structure RingState where
  context : Context
  producers : ℕ → Producer
  consumer : Consumer
  reserved : List Call
  released : ℕ
  drained : List Event
  returned : List (Call × RecordResult)
  refusals : List Refusal

namespace RingState

def slotAt (s : RingState) (position : UInt32) : Slot :=
  s.context.slots (slotIndex s.context.capacityMask position)

def setSlot (s : RingState) (position : UInt32) (slot : Slot) : RingState :=
  { s with
    context := { s.context with
      slots := Function.update s.context.slots (slotIndex s.context.capacityMask position) slot } }

def setProducer (s : RingState) (i : ℕ) (producer : Producer) : RingState :=
  { s with producers := Function.update s.producers i producer }

/-- Thread `i` calls `vp_record`. -/
def vpRecord (s : RingState) (i : ℕ) (event : Event) : RingState :=
  let call : Call := ⟨event, s.reserved.length⟩
  if event.type = 0 then { s with returned := (call, .invalidArgument) :: s.returned }
  else s.setProducer i (.load call)

/-- The next access of thread `i` in `vp_record`. -/
def produce (s : RingState) (spurious : Bool) (i : ℕ) : RingState :=
  match s.producers i with
  | .idle => s
  | .load call => s.setProducer i (.inspect call s.context.enqueuePos s.reserved.length)
  | .inspect call position ticket =>
    if difference (s.slotAt position).sequence position = 0 then
      s.setProducer i (.reserve call position ticket)
    else if difference (s.slotAt position).sequence position < 0 then
      { s with
        refusals := ⟨call, ticket, s.reserved.length, s.released⟩ :: s.refusals }.setProducer i
          (.refuse call)
    else s.setProducer i (.load call)
  | .reserve call position ticket =>
    if s.context.enqueuePos = position ∧ spurious = false then
      { s with
        context := { s.context with enqueuePos := position + 1 }
        reserved := s.reserved ++ [call] }.setProducer i (.write call position ticket)
    else s.setProducer i (.inspect call s.context.enqueuePos s.reserved.length)
  | .refuse call =>
    { s with
      context := { s.context with dropped := s.context.dropped + 1 }
      returned := (call, .dropped) :: s.returned }.setProducer i .idle
  | .write call position ticket =>
    (s.setSlot position { s.slotAt position with event := call.event }).setProducer i
      (.publish call position ticket)
  | .publish call position _ =>
    (s.setSlot position { s.slotAt position with sequence := position + 1 }).setProducer i
      (.count call)
  | .count call =>
    { s with
      context := { s.context with accepted := s.context.accepted + 1 }
      returned := (call, .ok) :: s.returned }.setProducer i .idle

/-- The next access of the draining thread in `vp_drain`. -/
def consume (s : RingState) : RingState :=
  match s.consumer with
  | .idle => s
  | .load 0 => { s with consumer := .idle }
  | .load (more + 1) => { s with consumer := .inspect more s.context.dequeuePos }
  | .inspect more position =>
    if difference (s.slotAt position).sequence (position + 1) ≠ 0 then { s with consumer := .idle }
    else { s with consumer := .copy more position }
  | .copy more position =>
    { s with
      drained := s.drained ++ [(s.slotAt position).event]
      consumer := .release more position }
  | .release more position =>
    { s.setSlot position { s.slotAt position with sequence := position + s.context.capacity } with
      released := s.released + 1
      consumer := .advance more position }
  | .advance more position =>
    { s with
      context := { s.context with dequeuePos := position + 1 }
      consumer := match more with
        | 0 => .idle
        | more + 1 => .inspect more (position + 1) }

/-- The pending count of `vp_get_stats`. -/
def pending (s : RingState) : UInt32 :=
  let pending := s.context.enqueuePos - s.context.dequeuePos
  if s.context.capacity < pending then s.context.capacity else pending

def started (context : Context) : RingState :=
  ⟨context, fun _ => .idle, .idle, [], 0, [], [], []⟩

end RingState

inductive Step : RingState → RingState → Prop
  | record {s : RingState} (i : ℕ) (event : Event) (idle : s.producers i = .idle) :
      Step s (s.vpRecord i event)
  | produce {s : RingState} (i : ℕ) (spurious : Bool) : Step s (s.produce spurious i)
  | drain {s : RingState} (maxEvents : ℕ) (idle : s.consumer = .idle) :
      Step s { s with consumer := .load maxEvents }
  | consume {s : RingState} : Step s s.consume

/-- Every call in progress has seen fewer than `bound` reservations. -/
def Short (bound : ℕ) (s : RingState) : Prop :=
  ∀ i call, (s.producers i).call? = some call → s.reserved.length < call.begun + bound

/-- A run in which no call of `vp_record` spans half the range of positions. -/
def RingRun (context : Context) : RingState → Prop :=
  Relation.ReflTransGen (fun s t => Step s t ∧ Short (2 ^ 31) t) (.started context)

end VitaDebugger.EventRing
