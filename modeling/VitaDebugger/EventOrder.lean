import Mathlib.Order.Basic
import Mathlib.Tactic.Set
import VitaDebugger.EventRing

/-! The ring hands out the events in the order of their reservations. The positions from
the next release on, as many as there are slots, each have a slot of their own; a slot
is full, held by one thread between its reservation and its publication, or free for
its next position, and its sequence number tells which. -/

namespace VitaDebugger.EventOrder
open WrappedPosition EventRing List Function Nat

/-- The slot of position `n`. -/
def slot (k : ℕ) (s : RingState) (n : ℕ) : Slot := s.context.slots (n % 2 ^ k)

structure Geometry (k : ℕ) (context : Context) : Prop where
  pos : 1 ≤ k
  small : k ≤ 30
  capacity : context.capacity = .ofNat (2 ^ k)
  mask : context.capacityMask = .ofNat (2 ^ k) - 1

/-- The event of reservation `n` waits in its slot. -/
structure Full (k : ℕ) (s : RingState) (n : ℕ) : Prop where
  sequence : (slot k s n).sequence = .ofNat (n + 1)
  event : s.reserved[n]?.map (·.event) = some (slot k s n).event

/-- The thread holds the slot of reservation `n`. -/
def Holds : Producer → ℕ → Prop
  | .write _ _ ticket, n => ticket = n
  | .publish _ _ ticket, n => ticket = n
  | _, _ => False

structure Loaded (s : RingState) (call : Call) (position : UInt32) (ticket : ℕ) : Prop where
  position : position = .ofNat ticket
  begun : call.begun ≤ ticket
  made : ticket ≤ s.reserved.length

structure Owns (k : ℕ) (s : RingState) (call : Call) (position : UInt32) (ticket : ℕ) : Prop where
  position : position = .ofNat ticket
  window : s.released ≤ ticket
  call : s.reserved[ticket]? = some call
  sequence : (slot k s ticket).sequence = .ofNat ticket

/-- What a thread in `vp_record` knows. -/
def Knows (k : ℕ) (s : RingState) : Producer → Prop
  | .idle => True
  | .load call => call.begun ≤ s.reserved.length
  | .inspect call position ticket => Loaded s call position ticket
  | .reserve call position ticket =>
    Loaded s call position ticket ∧ ticket < s.released + 2 ^ k
  | .refuse _ => True
  | .write call position ticket => Owns k s call position ticket
  | .publish call position ticket =>
    Owns k s call position ticket ∧ (slot k s ticket).event = call.event
  | .count _ => True

/-- Between two events the draining thread has handed out what it has released. -/
structure Settled (s : RingState) : Prop where
  dequeue : s.context.dequeuePos = .ofNat s.released
  drained : s.drained.length = s.released

/-- What the draining thread knows. -/
def Draining (k : ℕ) (s : RingState) : Consumer → Prop
  | .idle => Settled s
  | .load _ => Settled s
  | .inspect _ position => Settled s ∧ position = .ofNat s.released
  | .copy _ position => Settled s ∧ position = .ofNat s.released ∧ Full k s s.released
  | .release _ position => position = .ofNat s.released ∧
    s.drained.length = s.released + 1 ∧ Full k s s.released
  | .advance _ position => s.drained.length = s.released ∧ position + 1 = .ofNat s.released

/-- A call that has not seen too many reservations is refused for a slot that is still
taken by the event one round before. -/
def Justified (k : ℕ) (refusal : Refusal) : Prop :=
  refusal.reserved + 2 ^ k ≤ refusal.call.begun + 2 ^ 31 → refusal.released + 2 ^ k ≤ refusal.ticket

structure Inv (k : ℕ) (s : RingState) : Prop where
  geometry : Geometry k s.context
  enqueue : s.context.enqueuePos = .ofNat s.reserved.length
  behind : s.released ≤ s.reserved.length
  bounded : s.reserved.length ≤ s.released + 2 ^ k
  order : s.drained <+: s.reserved.map (·.event)
  free : ∀ n, s.reserved.length ≤ n → n < s.released + 2 ^ k → (slot k s n).sequence = .ofNat n
  taken : ∀ n, s.released ≤ n → n < s.reserved.length →
    Full k s n ∨ (slot k s n).sequence = .ofNat n ∧ ∃ i, Holds (s.producers i) n
  knows : ∀ i, Knows k s (s.producers i)
  apart : ∀ i j n, Holds (s.producers i) n → Holds (s.producers j) n → i = j
  draining : Draining k s s.consumer
  justified : ∀ refusal ∈ s.refusals, Justified k refusal

variable {k : ℕ} {s t : RingState}

section
variable (g : Geometry k s.context)
include g

theorem Geometry.index (n : ℕ) : slotIndex s.context.capacityMask (.ofNat n) = n % 2 ^ k := by
  have hs := g.small
  rw [g.mask, slotIndex_ofNat (by omega)]

theorem Geometry.slotAt (n : ℕ) : s.slotAt (.ofNat n) = slot k s n := by
  rw [RingState.slotAt, g.index, slot]

theorem Geometry.two_le : 2 ≤ 2 ^ k := Nat.pow_le_pow_right (n := 2) (by decide) g.pos

theorem Geometry.le_max : 2 ^ k ≤ 2 ^ 30 := Nat.pow_le_pow_right (by decide) g.small

end

theorem ofNat_succ_ne (n : ℕ) : UInt32.ofNat (n + 1) ≠ UInt32.ofNat n := by
  intro hs
  have htn := congrArg UInt32.toNat hs
  simp only [UInt32.toNat_ofNat'] at htn
  omega

variable {n : ℕ}

theorem Full.lt (hfu : Full k s n) : n < s.reserved.length := by
  have he := hfu.event
  cases hf : s.reserved[n]? with
  | none =>
    rw [hf] at he
    cases he
  | some call => exact (List.getElem?_eq_some_iff.mp hf).1

variable {p : UInt32} {call : Call}

theorem Owns.lt (ho : Owns k s call p n) :
    n < s.reserved.length := (List.getElem?_eq_some_iff.mp ho.call).1

theorem Owns.not_full (ho : Owns k s call p n) : ¬Full k s n := fun hf =>
  ofNat_succ_ne n (hf.sequence.symm.trans ho.sequence)

variable {i : ℕ}

theorem Inv.owns (inv : Inv k s) (hh : Holds (s.producers i) n) : ∃ call p, Owns k s call p n := by
  have hk := inv.knows i
  cases hhe : s.producers i with
  | write call p ticket =>
    rw [hhe] at hk hh
    exact ⟨call, p, hh ▸ hk⟩
  | publish call p ticket =>
    rw [hhe] at hk hh
    exact ⟨call, p, hh ▸ hk.1⟩
  | _ =>
    rw [hhe] at hh
    exact hh.elim

/-! What a step leaves alone. -/

variable (k) in
/-- The slots of the positions in `P` stay as they are; reservations are only added. -/
structure Kept (P : ℕ → Prop) (s t : RingState) : Prop where
  slot : ∀ n, P n → slot k t n = slot k s n
  reserved : s.reserved <+: t.reserved
  released : t.released = s.released

variable {ticket : ℕ} {producer : Producer}

section Kept
variable {P : ℕ → Prop}

section
variable (kept : Kept k P s t)
include kept

theorem Kept.getElem? (hk : n < s.reserved.length) : t.reserved[n]? = s.reserved[n]? := by
  obtain ⟨more, hs⟩ := kept.reserved
  rw [← hs, getElem?_append_left hk]

theorem Kept.full (hh : P n) (hf : Full k s n) : Full k t n where
  sequence := by
    rw [kept.slot n hh]
    exact hf.sequence
  event := by
    rw [kept.slot n hh, kept.getElem? hf.lt]
    exact hf.event

theorem Kept.loaded (hl : Loaded s call p ticket) : Loaded t call p ticket :=
  ⟨hl.position, hl.begun, le_trans hl.made kept.reserved.length_le⟩

theorem Kept.owns (hh : P ticket) (ho : Owns k s call p ticket) : Owns k t call p ticket where
  position := ho.position
  window := by
    rw [kept.released]
    exact ho.window
  call := by
    rw [kept.getElem? ho.lt]
    exact ho.call
  sequence := by
    rw [kept.slot ticket hh]
    exact ho.sequence

theorem Kept.knows (hh : ∀ n, Holds producer n → P n)
    (hk : Knows k s producer) : Knows k t producer := by
  cases producer with
  | idle => trivial
  | load call => exact le_trans hk kept.reserved.length_le
  | inspect call p ticket => exact kept.loaded hk
  | reserve call p ticket => exact ⟨kept.loaded hk.1, kept.released ▸ hk.2⟩
  | refuse call => trivial
  | write call p ticket => exact kept.owns (hh ticket rfl) hk
  | publish call p ticket =>
    refine ⟨kept.owns (hh ticket rfl) hk.1, ?_⟩
    rw [kept.slot ticket (hh ticket rfl)]
    exact hk.2
  | count call => trivial

theorem Kept.draining (hdr : t.drained = s.drained)
    (hde : t.context.dequeuePos = s.context.dequeuePos)
    (hh : Full k s s.released → P s.released)
    {c : Consumer} (hd : Draining k s c) : Draining k t c := by
  have hs (hb : Settled s) : Settled t :=
    ⟨by rw [hde, kept.released, hb.dequeue], by rw [hdr, kept.released, hb.drained]⟩
  have hf (hb : Full k s s.released) : Full k t t.released := by
    rw [kept.released]
    exact kept.full (hh hb) hb
  cases c with
  | idle => exact hs hd
  | load maxEvents => exact hs hd
  | inspect more p => exact ⟨hs hd.1, kept.released ▸ hd.2⟩
  | copy more p =>
    obtain ⟨hb, p, hw⟩ := hd
    exact ⟨hs hb, kept.released ▸ p, hf hw⟩
  | release more p =>
    obtain ⟨p, hc, hw⟩ := hd
    refine ⟨kept.released ▸ p, ?_, hf hw⟩
    rw [hdr, kept.released, hc]
  | advance more p =>
    obtain ⟨hc, p⟩ := hd
    exact ⟨by rw [hdr, kept.released, hc], kept.released ▸ p⟩

end

end Kept

theorem Inv.local_step (inv : Inv k s) (slots : t.context.slots = s.context.slots)
    (geometry : Geometry k t.context) (enqueue : t.context.enqueuePos = s.context.enqueuePos)
    (dequeue : t.context.dequeuePos = s.context.dequeuePos)
    (producers : t.producers = update s.producers i producer)
    (history : t.reserved = s.reserved ∧ t.released = s.released ∧ t.drained = s.drained ∧
      t.consumer = s.consumer) (justified : ∀ r ∈ t.refusals, Justified k r)
    (knows : Knows k s producer) {before : Producer} (here : s.producers i = before)
    (holds : ∀ n, ¬Holds before n ∧ ¬Holds producer n) : Inv k t := by
  have hk : Kept k (fun _ => True) s t :=
    ⟨fun n _ => by rw [slot, slots, slot], history.1 ▸ prefix_refl _, history.2.1⟩
  cases t
  obtain ⟨rfl, rfl, rfl, rfl⟩ := history
  subst here producers
  have ho {j n : ℕ} (hhe : Holds (update s.producers i producer j) n) :
      Holds (s.producers j) n := by
    by_cases hs : j = i
    · subst hs
      rw [update_self] at hhe
      exact absurd hhe (holds n).2
    · rwa [update_of_ne hs] at hhe
  refine { inv with
    geometry, enqueue := enqueue.trans inv.enqueue, justified
    free := fun n low hhi => ?_
    taken := fun n low hhi => ?_
    knows := fun j => ?_
    apart := fun a b n hf hsc => inv.apart a b n (ho hf) (ho hsc)
    draining := hk.draining rfl dequeue (fun _ => trivial) inv.draining }
  · rw [hk.slot n trivial]
    exact inv.free n low hhi
  · rcases inv.taken n low hhi with hfu | ⟨hse, j, hhe⟩
    · exact .inl (hk.full trivial hfu)
    have hs : j ≠ i := fun hs => (holds n).1 (hs ▸ hhe)
    have hst : Holds (update s.producers i producer j) n := by rwa [update_of_ne hs]
    exact .inr ⟨by rw [hk.slot n trivial, hse], j, hst⟩
  · refine hk.knows (fun _ _ => trivial) ?_
    dsimp only
    by_cases hs : j = i
    · subst hs
      rwa [update_self]
    · rw [update_of_ne hs]
      exact inv.knows j

/-! The producers. -/

/-- The slot a thread inspects belongs to one position of the window, and its sequence
number is that position's or, when it is full, the next. -/
theorem Inv.inspected (inv : Inv k s) (ticket : ℕ) :
    ∃ n, (s.released ≤ n ∧ n < s.released + 2 ^ k) ∧ n % 2 ^ k = ticket % 2 ^ k ∧
      ((slot k s ticket).sequence = .ofNat n ∨
        n < s.reserved.length ∧ (slot k s ticket).sequence = .ofNat (n + 1)) := by
  obtain ⟨n, hw, hsa⟩ := exists_in_window (Nat.two_pow_pos k) s.released ticket
  have hh : slot k s ticket = slot k s n := by rw [slot, slot, hsa]
  refine ⟨n, hw, hsa, ?_⟩
  rw [hh]
  by_cases hk : n < s.reserved.length
  · rcases inv.taken n hw.1 hk with hf | ⟨hs, -⟩
    · exact .inr ⟨hk, hf.sequence⟩
    · exact .inl hs
  · exact .inl (inv.free n (by omega) hw.2)

/-- A sequence number equal to the position says that the position is in the window. -/
theorem Inv.inspected_zero (inv : Inv k s) (hl : Loaded s call p ticket)
    (hsh : s.reserved.length < call.begun + 2 ^ 31)
    (hz : difference (slot k s ticket).sequence (.ofNat ticket) = 0) :
    ticket < s.released + 2 ^ k := by
  obtain ⟨n, hw, hsa, hs⟩ := inv.inspected ticket
  have two := inv.geometry.two_le
  have max := inv.geometry.le_max
  have hbe := hl.begun
  have hm := hl.made
  have hb := inv.bounded
  rcases hs with hs | ⟨hk, hs⟩
  · rw [hs, difference_eq_zero] at hz
    omega
  rw [hs, difference_eq_zero] at hz
  have hn : ticket = n + 1 := by omega
  subst hn
  exact absurd hsa (mod_ne_of_near (lt_succ_self n) (by omega))

/-- A sequence number behind the position says that the window ends before it. -/
theorem Inv.inspected_neg (inv : Inv k s) (hl : Loaded s call p ticket)
    (hsh : s.reserved.length + 2 ^ k ≤ call.begun + 2 ^ 31)
    (hn : difference (slot k s ticket).sequence (.ofNat ticket) < 0) :
    s.released + 2 ^ k ≤ ticket := by
  obtain ⟨n, hw, hsa, hs⟩ := inv.inspected ticket
  have hbe := hl.begun
  have hb := inv.behind
  by_contra hea
  -- Inside the window the slot is the position's own, before it the slot is already ahead.
  have ha : ticket ≤ n := by
    by_cases hi : s.released ≤ ticket
    · exact le_of_eq (eq_of_mod_eq ⟨hi, by omega⟩ hw hsa.symm)
    · omega
  rcases hs with hs | ⟨hk, hs⟩
  · rw [hs] at hn
    by_cases he : n = ticket
    · subst he
      rw [difference_eq_zero.mpr rfl] at hn
      exact Int.lt_irrefl 0 hn
    · have hp : 0 < difference (.ofNat n) (.ofNat ticket) := difference_pos (by omega) (by omega)
      omega
  rw [hs] at hn
  have hp : 0 < difference (.ofNat (n + 1)) (.ofNat ticket) := difference_pos (by omega) (by omega)
  omega

theorem ofNat_succ (n : ℕ) : UInt32.ofNat n + 1 = UInt32.ofNat (n + 1) :=
  (UInt32.ofNat_add n 1).symm

/-- The reservation: the position is still the next one, so its slot is free. -/
theorem Inv.reserve (inv : Inv k s) (hhe : s.producers i = .reserve call p ticket)
    (hsh : s.reserved.length < call.begun + 2 ^ 31) (he : s.context.enqueuePos = p) :
    Inv k ({ s with
      context := { s.context with enqueuePos := p + 1 }
      reserved := s.reserved ++ [call] }.setProducer i (.write call p ticket)) := by
  have hkn := inv.knows i
  rw [hhe] at hkn
  obtain ⟨hl, hw⟩ := hkn
  have hb := hl.begun
  have hma := hl.made
  have hn : ticket = s.reserved.length := by
    refine (ofNat_inj_of_near hma (by omega) ?_).symm
    rw [← inv.enqueue, he, hl.position]
  subst hn
  set t : RingState := { s with
    context := { s.context with enqueuePos := p + 1 }
    reserved := s.reserved ++ [call] }.setProducer i (.write call p s.reserved.length)
  have hr : t.reserved = s.reserved ++ [call] := rfl
  have hk : Kept k (fun _ => True) s t := ⟨fun _ _ => rfl, ⟨[call], rfl⟩, rfl⟩
  have hm : t.producers i = .write call p s.reserved.length := update_self ..
  have ho {j : ℕ} (hot : j ≠ i) : t.producers j = s.producers j := update_of_ne hot _ _
  have old {j n : ℕ} (hh : Holds (s.producers j) n) : j ≠ i ∧ n < s.reserved.length := by
    refine ⟨fun hsa => ?_, ?_⟩
    · rw [hsa, hhe] at hh
      exact hh
    · obtain ⟨_, _, how⟩ := inv.owns hh
      exact how.lt
  have hso {j n : ℕ} (hh : Holds (t.producers j) n) :
      (j = i ∧ n = s.reserved.length) ∨ Holds (s.producers j) n := by
    by_cases hsa : j = i
    · rw [hsa, hm] at hh
      exact .inl ⟨hsa, hh.symm⟩
    · rw [ho hsa] at hh
      exact .inr hh
  have hse := inv.free s.reserved.length (le_refl _) hw
  refine ⟨{ inv.geometry with }, ?_, ?_, ?_, ?_, ?_, ?_, ?_, ?_, ?_, inv.justified⟩
  · rw [hr, length_append, length_singleton, ← ofNat_succ, ← hl.position]
    rfl
  · rw [hr, length_append]
    exact le_trans inv.behind (le_add_right _ _)
  · rw [hr, length_append]
    exact hw
  · rw [hr, map_append]
    exact inv.order.trans (prefix_append _ _)
  · intro n low hhi
    rw [hr, length_append] at low
    exact inv.free n (by omega) hhi
  · intro n low hhi
    rw [hr, length_append, length_singleton] at hhi
    by_cases hla : n = s.reserved.length
    · refine .inr ⟨hla ▸ hse, i, ?_⟩
      rw [hm]
      exact hla.symm
    rcases inv.taken n low (by omega) with hfu | ⟨hse, j, hho⟩
    · exact .inl (hk.full trivial hfu)
    · refine .inr ⟨hse, j, ?_⟩
      rwa [ho (old hho).1]
  · intro j
    by_cases hsa : j = i
    · rw [hsa, hm]
      exact ⟨hl.position, inv.behind, by rw [hr, getElem?_concat_length], hse⟩
    · rw [ho hsa]
      exact hk.knows (fun _ _ => trivial) (inv.knows j)
  · intro a b n hf hs
    rcases hso hf with ⟨one, hla⟩ | hf
    · rcases hso hs with ⟨two, -⟩ | hs
      · exact one.trans two.symm
      · exact absurd (old hs).2 (by omega)
    · rcases hso hs with ⟨-, hla⟩ | hs
      · exact absurd (old hf).2 (by omega)
      · exact inv.apart a b n hf hs
  · exact hk.draining rfl rfl (fun _ => trivial) inv.draining

theorem Holds.unique {m : ℕ} (hf : Holds producer m) (hs : Holds producer n) : m = n := by
  cases producer with
  | write call p ticket => exact hf.symm.trans hs
  | publish call p ticket => exact hf.symm.trans hs
  | _ => exact hf.elim

theorem slot_setSlot (hg : Geometry k s.context) (ticket n : ℕ) (new : Slot) :
    slot k (s.setSlot (.ofNat ticket) new) n =
      if n % 2 ^ k = ticket % 2 ^ k then new else slot k s n := by
  rw [slot, RingState.setSlot, hg.index]
  exact update_apply ..

section
variable (inv : Inv k s)
include inv

theorem Inv.update_slot (hho : Holds (s.producers i) ticket) {new : Slot}
    (hkn : Knows k ((s.setSlot (.ofNat ticket) new).setProducer i producer) producer)
    (hon : ∀ n, Holds producer n → n = ticket)
    (haf : Full k ((s.setSlot (.ofNat ticket) new).setProducer i producer) ticket ∨
      new.sequence = .ofNat ticket ∧ Holds producer ticket) :
    Inv k ((s.setSlot (.ofNat ticket) new).setProducer i producer) := by
  obtain ⟨call, p, how⟩ := inv.owns hho
  set t := (s.setSlot (.ofNat ticket) new).setProducer i producer
  have hi : s.released ≤ ticket ∧ ticket < s.released + 2 ^ k :=
    ⟨how.window, lt_of_lt_of_le how.lt inv.bounded⟩
  have hsl (n : ℕ) : slot k t n = if n % 2 ^ k = ticket % 2 ^ k then new else slot k s n :=
    slot_setSlot inv.geometry ticket n new
  have hk : Kept k (fun n => (s.released ≤ n ∧ n < s.released + 2 ^ k) ∧ n ≠ ticket) s t := by
    refine ⟨fun n ha => ?_, prefix_refl _, rfl⟩
    rw [hsl, if_neg fun hs => ha.2 (eq_of_mod_eq ha.1 hi hs)]
  have hm : t.producers i = producer := update_self ..
  have ho {j : ℕ} (hot : j ≠ i) : t.producers j = s.producers j := update_of_ne hot _ _
  have ha {j n : ℕ} (hot : j ≠ i) (hh : Holds (s.producers j) n) :
      (s.released ≤ n ∧ n < s.released + 2 ^ k) ∧ n ≠ ticket := by
    obtain ⟨_, _, ht⟩ := inv.owns hh
    refine ⟨⟨ht.window, lt_of_lt_of_le ht.lt inv.bounded⟩, fun hs => hot ?_⟩
    exact inv.apart j i n hh (hs ▸ hho)
  refine { inv with
    geometry := { inv.geometry with }, free := ?_, taken := ?_, knows := ?_, apart := ?_,
    draining := ?_ }
  · intro n low hhi
    have hb : ticket < n := lt_of_lt_of_le how.lt low
    have hr : s.released ≤ n := le_trans how.window (le_of_lt hb)
    rw [hk.slot n ⟨⟨hr, hhi⟩, ne_of_gt hb⟩]
    exact inv.free n low hhi
  · intro n low hhi
    by_cases own : n = ticket
    · subst own
      rcases haf with hfu | ⟨hsq, hh⟩
      · exact .inl hfu
      · refine .inr ⟨by rw [hsl, if_pos rfl, hsq], i, ?_⟩
        rwa [hm]
    have hw : s.released ≤ n ∧ n < s.released + 2 ^ k := ⟨low, lt_of_lt_of_le hhi inv.bounded⟩
    rcases inv.taken n low hhi with hfu | ⟨hsq, j, hh⟩
    · exact .inl (hk.full ⟨hw, own⟩ hfu)
    · have hot : j ≠ i := fun hs => own (Holds.unique (hs ▸ hh) hho)
      exact .inr ⟨by rw [hk.slot n ⟨hw, own⟩, hsq], j, by rwa [ho hot]⟩
  · intro j
    by_cases hs : j = i
    · rw [hs, hm]
      exact hkn
    · rw [ho hs]
      exact hk.knows (fun n hh => ha hs hh) (inv.knows j)
  · intro a b n hf hse
    by_cases one : a = i
    · by_cases two : b = i
      · exact one.trans two.symm
      · rw [one, hm] at hf
        rw [ho two] at hse
        exact absurd (hon n hf) (ha two hse).2
    rw [ho one] at hf
    by_cases two : b = i
    · rw [two, hm] at hse
      exact absurd (hon n hse) (ha one hf).2
    · rw [ho two] at hse
      exact inv.apart a b n hf hse
  refine hk.draining rfl rfl (fun hfu => ⟨⟨le_refl _, ?_⟩, ?_⟩) inv.draining
  · exact Nat.lt_add_of_pos_right (Nat.two_pow_pos k)
  · rintro hs
    exact how.not_full (hs ▸ hfu)

theorem Inv.release {more : ℕ} (hhe : s.consumer = .release more p) :
    Inv k { s.setSlot p { s.slotAt p with
        sequence := p + s.context.capacity } with
      released := s.released + 1
      consumer := .advance more p } := by
  have draining := inv.draining
  rw [hhe] at draining
  obtain ⟨rfl, count, hf⟩ := draining
  set t : RingState := { s.setSlot (.ofNat s.released) { s.slotAt (.ofNat s.released) with
      sequence := .ofNat s.released + s.context.capacity } with
    released := s.released + 1
    consumer := .advance more (.ofNat s.released) }
  have hn : UInt32.ofNat s.released + s.context.capacity = .ofNat (s.released + 2 ^ k) := by
    rw [inv.geometry.capacity, UInt32.ofNat_add]
  have hfi : s.released ≤ s.released ∧ s.released < s.released + 2 ^ k :=
    ⟨Nat.le_refl _, Nat.lt_add_of_pos_right (Nat.two_pow_pos k)⟩
  have hsl (n : ℕ) : slot k t n = if n % 2 ^ k = s.released % 2 ^ k then
      { s.slotAt (.ofNat s.released) with sequence := .ofNat (s.released + 2 ^ k) }
      else slot k s n := by
    rw [← hn]
    exact slot_setSlot inv.geometry s.released n _
  have ha {n : ℕ} (low : s.released < n) (hh : n < s.released + 2 ^ k) :
      slot k t n = slot k s n := by
    rw [hsl, if_neg fun same => absurd (eq_of_mod_eq ⟨le_of_lt low, hh⟩ hfi same) (ne_of_gt low)]
  have lt := hf.lt
  have bounded := inv.bounded
  have how {call : Call} {p : UInt32} {ticket : ℕ} (ho : Owns k s call p ticket) :
      Owns k t call p ticket ∧ slot k t ticket = slot k s ticket := by
    have later : s.released < ticket := by
      refine lt_of_le_of_ne ho.window fun same => ho.not_full ?_
      exact same ▸ hf
    have same := ha later (lt_of_lt_of_le ho.lt bounded)
    exact ⟨⟨ho.position, later, ho.call, by rw [same, ho.sequence]⟩, same⟩
  refine { inv with
    geometry := { inv.geometry with }, behind := lt, bounded := ?_, free := ?_, taken := ?_,
    knows := ?_
    draining := ⟨count, ofNat_succ s.released⟩ }
  · exact le_trans bounded (by change _ ≤ s.released + 1 + _; omega)
  · intro n low hh
    change n < s.released + 1 + 2 ^ k at hh
    by_cases last : n = s.released + 2 ^ k
    · rw [hsl, last, add_mod_right, if_pos rfl]
    · rw [ha (lt_of_lt_of_le lt low) (by omega)]
      exact inv.free n low (by omega)
  · intro n low hh
    change s.released + 1 ≤ n at low
    have same := ha low (lt_of_lt_of_le hh bounded)
    rcases inv.taken n (by omega) hh with hw | ⟨sequence, hho⟩
    · exact .inl ⟨by rw [same, hw.sequence], by rw [same]; exact hw.event⟩
    · exact .inr ⟨by rw [same, sequence], hho⟩
  · intro j
    have knows := inv.knows j
    change Knows k t (s.producers j)
    generalize s.producers j = producer at knows ⊢
    cases producer with
    | idle => trivial
    | load call => exact knows
    | inspect call p ticket => exact ⟨knows.position, knows.begun, knows.made⟩
    | reserve call p ticket =>
      refine ⟨⟨knows.1.position, knows.1.begun, knows.1.made⟩, ?_⟩
      change ticket < s.released + 1 + 2 ^ k
      have := knows.2
      omega
    | refuse call => trivial
    | write call p ticket => exact (how knows).1
    | publish call p ticket =>
      obtain ⟨hst, same⟩ := how knows.1
      exact ⟨hst, by rw [same, knows.2]⟩
    | count call => trivial

theorem Inv.produce (ss : Bool) (i : ℕ)
    (hs : Short (2 ^ 31) (s.produce ss i)) : Inv k (s.produce ss i) := by
  have knows := inv.knows i
  have hsa : s.reserved = s.reserved ∧ s.released = s.released ∧ s.drained = s.drained ∧
    s.consumer = s.consumer := ⟨rfl, rfl, rfl, rfl⟩
  unfold RingState.produce at hs ⊢
  cases hh : s.producers i with
  | idle => exact inv
  | load call =>
    rw [hh] at knows
    exact inv.local_step rfl inv.geometry rfl rfl rfl hsa inv.justified
      ⟨inv.enqueue, knows, le_refl _⟩ hh fun _ => ⟨id, id⟩
  | inspect call p ticket =>
    rw [hh] at knows hs
    have hsl : s.slotAt p = slot k s ticket := by
      rw [knows.position, inv.geometry.slotAt]
    simp only [hsl] at hs ⊢
    have hb : call.begun ≤ s.reserved.length := le_trans knows.begun knows.made
    split
    · next hz =>
      rw [if_pos hz] at hs
      have spans := hs i call (by simp [RingState.setProducer, Producer.call?])
      refine inv.local_step rfl inv.geometry rfl rfl rfl hsa inv.justified ⟨knows, ?_⟩
        hh fun _ => ⟨id, id⟩
      exact inv.inspected_zero knows spans (knows.position ▸ hz)
    split
    · next hn =>
      refine inv.local_step rfl inv.geometry rfl rfl rfl hsa ?_ trivial hh fun _ => ⟨id, id⟩
      intro r mem
      cases mem_cons.mp mem with
      | inl new =>
        subst new
        exact fun few => inv.inspected_neg knows few (knows.position ▸ hn)
      | inr old => exact inv.justified r old
    · exact inv.local_step rfl inv.geometry rfl rfl rfl hsa inv.justified hb hh fun _ => ⟨id, id⟩
  | reserve call p ticket =>
    rw [hh] at knows hs
    dsimp only at hs ⊢
    split
    · next ht =>
      rw [if_pos ht] at hs
      have spans := hs i call (by simp [RingState.setProducer, Producer.call?])
      refine inv.reserve hh (lt_of_le_of_lt ?_ spans) ht.1
      simp [RingState.setProducer]
    exact inv.local_step rfl inv.geometry rfl rfl rfl hsa inv.justified
      ⟨inv.enqueue, le_trans knows.1.begun knows.1.made, le_refl _⟩ hh fun _ => ⟨id, id⟩
  | refuse call =>
    exact inv.local_step rfl { inv.geometry with } rfl rfl rfl hsa inv.justified trivial
      hh fun _ => ⟨id, id⟩
  | write call p ticket =>
    rw [hh] at knows
    have hho : Holds (s.producers i) ticket := by
      rw [hh]
      exact rfl
    have own : s.slotAt p = slot k s ticket := by
      rw [knows.position, inv.geometry.slotAt]
    dsimp only
    rw [own, knows.position]
    have written := slot_setSlot inv.geometry ticket ticket
      { slot k s ticket with event := call.event }
    rw [if_pos rfl] at written
    refine inv.update_slot hho ⟨⟨rfl, knows.window, knows.call, ?_⟩, ?_⟩ (fun n hhe => hhe.symm)
      (.inr ⟨knows.sequence, rfl⟩)
    · exact (congrArg Slot.sequence written).trans knows.sequence
    · exact congrArg Slot.event written
  | publish call p ticket =>
    rw [hh] at knows
    obtain ⟨ho, event⟩ := knows
    have hho : Holds (s.producers i) ticket := by
      rw [hh]
      exact rfl
    have own : s.slotAt p = slot k s ticket := by
      rw [ho.position, inv.geometry.slotAt]
    dsimp only
    rw [own, ho.position, ofNat_succ]
    have written := slot_setSlot inv.geometry ticket ticket
      { slot k s ticket with sequence := .ofNat (ticket + 1) }
    rw [if_pos rfl] at written
    refine inv.update_slot hho trivial (fun n => False.elim)
      (.inl ⟨congrArg Slot.sequence written, ?_⟩)
    refine (congrArg (Option.map _) ho.call).trans ?_
    exact congrArg some (event.symm.trans (congrArg Slot.event written).symm)
  | count call =>
    exact inv.local_step rfl { inv.geometry with } rfl rfl rfl hsa inv.justified trivial
      hh fun _ => ⟨id, id⟩

theorem Inv.drain_step (hc : t.context.slots = s.context.slots ∧
      t.context.enqueuePos = s.context.enqueuePos) (geometry : Geometry k t.context)
    (hh : t.reserved = s.reserved ∧ t.released = s.released ∧ t.producers = s.producers ∧
      t.refusals = s.refusals)
    (order : t.drained <+: s.reserved.map (·.event)) (draining : Draining k t t.consumer) :
    Inv k t := by
  have hk : Kept k (fun _ => True) s t :=
    ⟨fun n _ => by rw [slot, hc.1, slot], hh.1 ▸ prefix_refl _, hh.2.1⟩
  cases t
  obtain ⟨rfl, rfl, rfl, rfl⟩ := hh
  refine { inv with
    geometry, order, draining, enqueue := hc.2.trans inv.enqueue
    free := fun n low hhi => ?_
    taken := fun n low hhi => ?_
    knows := fun j => hk.knows (fun _ _ => trivial) (inv.knows j) }
  · rw [hk.slot n trivial]
    exact inv.free n low hhi
  · rcases inv.taken n low hhi with hf | ⟨hs, hho⟩
    · exact .inl (hk.full trivial hf)
    · exact .inr ⟨by rw [hk.slot n trivial, hs], hho⟩

/-- The consumer finds the slot of the next position full or stops. -/
theorem Inv.consume : Inv k s.consume := by
  have draining := inv.draining
  have same : s.reserved = s.reserved ∧ s.released = s.released ∧ s.producers = s.producers ∧
    s.refusals = s.refusals := ⟨rfl, rfl, rfl, rfl⟩
  have geometry := inv.geometry
  unfold RingState.consume
  cases here : s.consumer with
  | idle => exact inv
  | load me =>
    rw [here] at draining
    have settled : Settled s := draining
    cases me with
    | zero =>
      exact inv.drain_step ⟨rfl, rfl⟩ geometry same inv.order ⟨settled.dequeue, settled.drained⟩
    | succ m =>
      exact inv.drain_step ⟨rfl, rfl⟩ geometry same inv.order
        ⟨⟨settled.dequeue, settled.drained⟩, settled.dequeue⟩
  | inspect m p =>
    rw [here] at draining
    obtain ⟨settled, rfl⟩ := draining
    have own : s.slotAt (.ofNat s.released) = slot k s s.released := geometry.slotAt _
    dsimp only
    rw [own, ofNat_succ]
    split
    · exact inv.drain_step ⟨rfl, rfl⟩ geometry same inv.order ⟨settled.dequeue, settled.drained⟩
    next equal =>
    have waiting : Full k s s.released := by
      have unpublished (sequence : (slot k s s.released).sequence = .ofNat s.released) : False := by
        rw [sequence, not_not, difference_eq_zero] at equal
        omega
      by_cases known : s.released < s.reserved.length
      · rcases inv.taken s.released (le_refl _) known with full | ⟨sequence, -⟩
        · exact full
        · exact (unpublished sequence).elim
      · exact (unpublished (inv.free _ (by omega)
          (Nat.lt_add_of_pos_right (Nat.two_pow_pos k)))).elim
    exact inv.drain_step ⟨rfl, rfl⟩ geometry same inv.order
      ⟨⟨settled.dequeue, settled.drained⟩, rfl, waiting.sequence, waiting.event⟩
  | copy m p =>
    rw [here] at draining
    obtain ⟨settled, rfl, waiting⟩ := draining
    refine inv.drain_step ⟨rfl, rfl⟩ geometry same ?_ ⟨rfl, ?_, waiting.sequence, waiting.event⟩
    · dsimp only
      obtain ⟨rest, split⟩ := inv.order
      have event := waiting.event
      rw [← getElem?_map, ← split, ← settled.drained,
        List.getElem?_append_right (Nat.le_refl _), Nat.sub_self] at event
      cases rest with
      | nil => cases event
      | cons first rest =>
        rw [geometry.slotAt, ← split]
        cases event
        rw [settled.drained]
        exact ⟨rest, append_assoc ..⟩
    · simp [settled.drained]
  | release m p => exact inv.release here
  | advance m p =>
    rw [here] at draining
    obtain ⟨count, p⟩ := draining
    refine inv.drain_step ⟨rfl, rfl⟩ { geometry with } same inv.order ?_
    cases m with
    | zero => exact ⟨p, count⟩
    | succ m => exact ⟨⟨p, count⟩, p⟩

theorem Inv.step (hne : Step s t) (hsh : Short (2 ^ 31) t) : Inv k t := by
  cases hne with
  | record i event hi =>
    unfold RingState.vpRecord
    have hn (n : ℕ) : ¬Holds (s.producers i) n := by
      rw [hi]
      exact id
    have hsa : s.producers = update s.producers i (s.producers i) := (update_eq_self i _).symm
    split
    · exact inv.local_step rfl inv.geometry rfl rfl hsa ⟨rfl, rfl, rfl, rfl⟩ inv.justified
        (inv.knows i) rfl fun n => ⟨hn n, hn n⟩
    · exact inv.local_step rfl inv.geometry rfl rfl rfl ⟨rfl, rfl, rfl, rfl⟩ inv.justified
        (le_refl _) hi fun _ => ⟨id, id⟩
  | produce i ss => exact inv.produce ss i hsh
  | drain maxEvents hi =>
    have hs : Settled s := by
      have hd := inv.draining
      rwa [hi] at hd
    exact inv.drain_step ⟨rfl, rfl⟩ inv.geometry ⟨rfl, rfl, rfl, rfl⟩ inv.order
      ⟨hs.dequeue, hs.drained⟩
  | consume => exact inv.consume

/-! Initialisation. -/

end

theorem vpInit_power (ss : ℕ → Slot) (pos : 1 ≤ k) (hs : k ≤ 30) :
    ∃ context, vpInit ss (.ofNat (2 ^ k)) = some context ∧ Inv k (.started context) := by
  have two : 2 ≤ 2 ^ k := Nat.pow_le_pow_right (n := 2) (by decide) pos
  have max : 2 ^ k ≤ 2 ^ 30 := Nat.pow_le_pow_right (by decide) hs
  have htn : (UInt32.ofNat (2 ^ k)).toNat = 2 ^ k := by
    rw [UInt32.toNat_ofNat', mod_eq_of_lt (by omega)]
  have hm : UInt32.ofNat (2 ^ k) &&& (UInt32.ofNat (2 ^ k) - 1) = 0 := by
    apply UInt32.toNat_inj.mp
    have hi := slotIndex_ofNat (show k < 32 by omega) (2 ^ k)
    rwa [slotIndex, mod_self] at hi
  have ha : ¬(UInt32.ofNat (2 ^ k) < 2 ∨ maxCapacity < UInt32.ofNat (2 ^ k) ∨
      UInt32.ofNat (2 ^ k) &&& (UInt32.ofNat (2 ^ k) - 1) ≠ 0) := by
    rw [UInt32.lt_iff_toNat_lt, UInt32.lt_iff_toNat_lt, htn, hm]
    rintro (low | hh | hn)
    · exact absurd low (not_lt.mpr two)
    · exact absurd hh (not_lt.mpr max)
    · exact hn rfl
  refine ⟨_, if_neg ha, ⟨⟨pos, hs, rfl, rfl⟩, rfl, le_refl _, zero_le _,
    nil_prefix, fun n _ hh => ?_, fun n _ hh => absurd hh (not_lt_zero n),
    fun _ => trivial, fun _ _ _ => False.elim, ⟨rfl, rfl⟩, (by rintro _ ⟨⟩)⟩⟩
  have hhe : n < 2 ^ k := by simpa [RingState.started] using hh
  rw [slot, mod_eq_of_lt hhe]
  simp only [RingState.started, htn, if_pos hhe]

theorem RingRun.inv {context : Context} (hs : Inv k (.started context))
    (run : RingRun context s) : Inv k s := by
  induction run with
  | refl => exact hs
  | tail hb hn ih => exact ih.step hn.1 hn.2

end VitaDebugger.EventOrder
