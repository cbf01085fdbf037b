import Mathlib.Data.List.AList
import VitaDebugger.AsciiText

/-! The back-off of the authentication listener. Connections are served one at a time; what the
peer, the key storage and the clock answer belongs to the connection. A history has the newest
connection first. -/

namespace VitaDebugger.AuthBackoff
open List

/-- The peer address and the key the host claims. -/
abbrev Pair := UInt32 × UInt64

structure Slot where
  failures : ℕ
  blockedUntil : ℕ

/-- The active slots of the failure table by their pair, and the nonces seen. -/
structure Listener where
  failures : AList fun _ : Pair => Slot
  exhausted : Bool
  replays : List Bytes

def backoff (failures : ℕ) : ℕ :=
  min (250 <<< (if failures > 6 then 5 else failures - 1)) 8000

def Slot.again (slot : Slot) (now : ℕ) : Slot :=
  let failures := if slot.failures ≠ 2 ^ 32 - 1 then slot.failures + 1 else slot.failures
  let delay := backoff failures
  ⟨failures, if 2 ^ 64 - 1 - now < delay then 2 ^ 64 - 1 else now + delay⟩

namespace Listener

def recordFailure (s : Listener) (pair : Pair) (now : ℕ) : Listener :=
  if s.failures.lookup pair = none ∧ 32 ≤ s.failures.entries.length then
    { s with exhausted := true }
  else
    let slot := (s.failures.lookup pair).getD ⟨0, 0⟩
    { s with failures := s.failures.insert pair (slot.again now) }

def rateLimited (s : Listener) (pair : Pair) (now : ℕ) : Bool :=
  s.exhausted || (s.failures.lookup pair).any (now < ·.blockedUntil)

def clearFailure (s : Listener) (pair : Pair) : Listener :=
  { s with failures := s.failures.erase pair }

end Listener

structure Hello where
  hostKeyId : UInt64
  nonce : Bytes

/-- How a hello goes on that is neither refused for its rate nor for its nonce. -/
inductive Rest where
  | unknownPeer
  | challengeFailed
  | lost
  | badProof
  | denied
  | resultLost
  | authenticated

/-- `start` is the first reading of the clock and `later` the last; a hello that does not arrive
or is malformed is `none`. -/
structure Connection where
  peer : UInt32
  start : ℕ
  later : ℕ
  hello : Option Hello
  rest : Rest

def Connection.pair (c : Connection) : Option Pair :=
  c.hello.map fun hello => (c.peer, hello.hostKeyId)

structure Served where
  listener : Listener
  signed : Bool
  failed : Option ℕ
  succeeded : Bool

def serve (deadline : ℕ) (s : Listener) (c : Connection) : Served :=
  let refused : Served := ⟨s, false, none, false⟩
  if 2 ^ 64 - 1 - c.start < deadline then refused
  else match c.hello with
  | none => refused
  | some hello =>
    let pair := (c.peer, hello.hostKeyId)
    if s.rateLimited pair c.start then refused
    else if hello.nonce ∈ s.replays then
      ⟨s.recordFailure pair c.start, false, some c.start, false⟩
    else if 128 ≤ s.replays.length then refused
    else
      let stored := { s with replays := s.replays ++ [hello.nonce] }
      match c.rest with
      | .unknownPeer => ⟨s.recordFailure pair c.start, false, some c.start, false⟩
      | .challengeFailed => ⟨s, true, none, false⟩
      | .lost | .resultLost => ⟨stored, true, none, false⟩
      | .badProof | .denied => ⟨stored.recordFailure pair c.later, true, some c.later, false⟩
      | .authenticated => ⟨stored.clearFailure pair, true, none, true⟩

def run (deadline : ℕ) : List Connection → Listener
  | [] => ⟨∅, false, []⟩
  | c :: past => (serve deadline (run deadline past) c).listener

/-- The failures of the pair since its last success. -/
def streak (deadline : ℕ) (pair : Pair) : List Connection → ℕ
  | [] => 0
  | c :: past =>
    let served := serve deadline (run deadline past) c
    if c.pair ≠ some pair then streak deadline pair past
    else if served.succeeded then 0
    else if served.failed.isSome then streak deadline pair past + 1
    else streak deadline pair past

/-- The clock does not go back. -/
def Clock (history : List Connection) : Prop :=
  (∀ c ∈ history, c.start ≤ c.later) ∧ history.Pairwise fun new old => old.later ≤ new.start

variable {s : Listener} {c : Connection} {pair other : Pair} {now deadline bar count : ℕ}

/-- What a connection does to the failure table. -/
@[elab_as_elim]
theorem serve_elim {P : Served → Prop} (deadline : ℕ) (s : Listener) (c : Connection)
    (none : ∀ replays signed, P ⟨{ s with replays }, signed, none, false⟩)
    (hf : ∀ replays signed pair t, c.pair = some pair →
      P ⟨{ s with replays }.recordFailure pair t, signed, some t, false⟩)
    (hc : ∀ replays pair, c.pair = some pair →
      P ⟨{ s with replays }.clearFailure pair, true, .none, true⟩) : P (serve deadline s c) := by
  unfold serve
  dsimp only
  split
  · exact none s.replays false
  split
  · exact none s.replays false
  case h_2 hl hfo =>
    have hh : c.pair = some (c.peer, hl.hostKeyId) := by rw [Connection.pair, hfo]; rfl
    split
    · exact none s.replays false
    split
    · exact hf s.replays false _ _ hh
    split
    · exact none s.replays false
    split
    · exact hf s.replays false _ _ hh
    · exact none s.replays true
    · exact none _ true
    · exact none _ true
    · exact hf _ true _ _ hh
    · exact hf _ true _ _ hh
    · exact hc _ _ hh

theorem recordFailure_ne (s : Listener) (now : ℕ) (ha : other ≠ pair) :
    (s.recordFailure pair now).failures.lookup other = s.failures.lookup other := by
  unfold Listener.recordFailure
  split
  · rfl
  · exact AList.lookup_insert_ne ha

theorem recordFailure_self (s : Listener) (pair : Pair) (now : ℕ) :
    (s.recordFailure pair now).exhausted = true ∨
    (s.recordFailure pair now).failures.lookup pair =
      some (((s.failures.lookup pair).getD ⟨0, 0⟩).again now) := by
  unfold Listener.recordFailure
  split
  · exact .inl rfl
  · exact .inr (AList.lookup_insert _)

theorem recordFailure_exhausted (now : ℕ) (hf : s.exhausted = true) :
    (s.recordFailure pair now).exhausted = true := by
  unfold Listener.recordFailure
  split
  · rfl
  · exact hf

theorem limited_refused (hl : ∀ pair, c.pair = some pair → s.rateLimited pair c.start = true) :
    serve deadline s c = ⟨s, false, none, false⟩ := by
  unfold serve
  split
  · rfl
  split
  · rfl
  case h_2 he hf =>
    have hh : c.pair = some (c.peer, he.hostKeyId) := by rw [Connection.pair, hf]; rfl
    rw [if_pos (hl _ hh)]

theorem exhausted_refused (hf : s.exhausted = true) :
    serve deadline s c = ⟨s, false, none, false⟩ := by
  refine limited_refused fun pair _ => ?_
  rw [Listener.rateLimited, hf, Bool.true_or]

/-- The pair is refused before `bar`. -/
def Blocked (s : Listener) (pair : Pair) (bar : ℕ) : Prop :=
  s.exhausted = true ∨
    ∃ slot, s.failures.lookup pair = some slot ∧ min bar (2 ^ 64 - 1) ≤ slot.blockedUntil

theorem Blocked.refused (hb : Blocked s pair bar) (hc : 0 < deadline)
    (hh : c.pair = some pair) (he : c.start < bar) :
    serve deadline s c = ⟨s, false, none, false⟩ := by
  rcases hb with hfu | ⟨slot, hf, hu'⟩
  · exact exhausted_refused hfu
  by_cases ho : 2 ^ 64 - 1 - c.start < deadline
  · rw [serve, if_pos ho]
  refine limited_refused fun pair' hh' => ?_
  cases hh.symm.trans hh'
  have hbe : c.start < slot.blockedUntil := by omega
  simp [Listener.rateLimited, hf, hbe]

theorem Blocked.step (hb : Blocked s pair bar) (hc : 0 < deadline)
    (he : c.start < bar) : Blocked (serve deadline s c).listener pair bar := by
  by_cases hh : c.pair = some pair
  · rwa [hb.refused hc hh he]
  rcases hb with hfu | ⟨slot, found, hu'⟩
  · rw [exhausted_refused hfu]
    exact .inl hfu
  refine .inr ⟨slot, ?_, hu'⟩
  have ha (other : Pair) (ht : c.pair = some other) : pair ≠ other := by
    rintro rfl
    exact hh ht
  refine serve_elim deadline s c (fun _ _ => found) (fun _ _ other t ht => ?_) fun _ other ht => ?_
  · exact (recordFailure_ne _ t (ha other ht)).trans found
  · exact (AList.lookup_erase_ne (ha other ht)).trans found

theorem Blocked.run {past : List Connection} (hb : Blocked (run deadline past) pair bar)
    (hc : 0 < deadline) (mid : List Connection) (he : ∀ c ∈ mid, c.start < bar) :
    Blocked (AuthBackoff.run deadline (mid ++ past)) pair bar := by
  induction mid with
  | nil => exact hb
  | cons c mid hbe =>
    have hea := hbe fun m hi => he m (mem_cons_of_mem c hi)
    exact hea.step hc (he c mem_cons_self)

/-- The slot of a pair counts the failures since its last success. -/
def Counted (s : Listener) (pair : Pair) (count : ℕ) : Prop :=
  s.exhausted = true ∨ (s.failures.lookup pair).map (·.failures) =
    if count = 0 then none else some (min count (2 ^ 32 - 1))

theorem Counted.again (hc : Counted s pair count) (now : ℕ) :
    Counted (s.recordFailure pair now) pair (count + 1) := by
  rcases hc with hfu | hc
  · exact .inl (recordFailure_exhausted now hfu)
  refine (recordFailure_self s pair now).imp_right fun hf => ?_
  have hb : ((s.failures.lookup pair).getD ⟨0, 0⟩).failures = min count (2 ^ 32 - 1) := by
    cases hs : s.failures.lookup pair <;> simp_all
  rw [hf, if_neg count.succ_ne_zero, Option.map_some, Slot.again, hb]
  congr 1
  dsimp only
  split <;> omega

theorem counted_run (deadline : ℕ) (pair : Pair) (p : List Connection) :
    Counted (run deadline p) pair (streak deadline pair p) := by
  induction p with
  | nil => exact .inr rfl
  | cons c p hc =>
    have hst (replays : List Bytes) :
        Counted { run deadline p with replays } pair (streak deadline pair p) := hc
    rw [run, streak]
    refine serve_elim deadline (run deadline p) c (fun replays _ => ?_)
      (fun replays _ other t ht => ?_) fun replays other ht => ?_
    · simpa using hst replays
    · by_cases hs : pair = other
      · subst hs
        simpa [ht] using (hst replays).again t
      · simp only [ht, ne_eq, Option.some.injEq, Ne.symm hs, not_false_eq_true, if_true]
        refine hc.imp (recordFailure_exhausted t) fun hk => ?_
        rwa [recordFailure_ne _ t hs]
    · by_cases hs : pair = other
      · subst hs
        simp [ht, Counted, Listener.clearFailure]
      · simpa [ht, Ne.symm hs, Counted, Listener.clearFailure, AList.lookup_erase_ne hs] using hc

theorem backoff_count (count : ℕ) :
    backoff (min count (2 ^ 32 - 1)) = min (250 * 2 ^ (count - 1)) 8000 := by
  rw [backoff, Nat.shiftLeft_eq]
  split
  · have hl : 2 ^ 5 ≤ 2 ^ (count - 1) := Nat.pow_le_pow_right (by decide) (by omega)
    omega
  · rw [show min count (2 ^ 32 - 1) = count by omega]

theorem Slot.again_blockedUntil (slot : Slot) (now : ℕ) :
    min (now + backoff (slot.again now).failures) (2 ^ 64 - 1) ≤ (slot.again now).blockedUntil := by
  unfold Slot.again
  dsimp only
  generalize backoff _ = delay
  split <;> omega

theorem blocked_of_failed (p : List Connection) {t : ℕ} (hh : c.pair = some pair)
    (hfa : (serve deadline (run deadline p) c).failed = some t) :
    Blocked (run deadline (c :: p)) pair
      (t + min (250 * 2 ^ (streak deadline pair (c :: p) - 1)) 8000) := by
  have counted := counted_run deadline pair (c :: p)
  generalize streak deadline pair (c :: p) = count at counted ⊢
  rw [run] at counted ⊢
  revert hfa counted
  refine serve_elim deadline (run deadline p) c nofun (fun _ _ other t' ht => ?_) nofun
  rintro ⟨⟩ (hfu | counted)
  · exact .inl hfu
  cases hh.symm.trans ht
  refine (recordFailure_self _ pair t).imp_right fun found => ⟨_, found, ?_⟩
  rw [found, Option.map_some] at counted
  split at counted
  · cases counted
  rw [← backoff_count, ← Option.some.inj counted]
  exact Slot.again_blockedUntil _ t

/-- The back-off of the pairs over every history: a failure blocks, a success clears, nothing is
evicted, and a full table ends the service. -/
theorem back_off (deadline : ℕ) (configured : 100 ≤ deadline) (past : List Connection)
    (c : Connection) :
    let served := serve deadline (run deadline past) c
    (∀ pair t mid n, c.pair = some pair → served.failed = some t →
      Clock (n :: (mid ++ c :: past)) → n.pair = some pair →
      n.start < t + min (250 * 2 ^ (streak deadline pair (c :: past) - 1)) 8000 →
      (serve deadline (run deadline (mid ++ c :: past)) n).signed = false) ∧
    (∀ pair, c.pair = some pair → served.succeeded = true →
      served.listener.failures.lookup pair = none) ∧
    (∀ pair, pair ∈ (run deadline past).failures → pair ∈ served.listener.failures ∨
      c.pair = some pair ∧ served.succeeded = true) ∧
    (∀ pair t mid n, c.pair = some pair → served.failed = some t →
      pair ∉ (run deadline past).failures → 32 ≤ (run deadline past).failures.entries.length →
      (serve deadline (run deadline (mid ++ c :: past)) n).signed = false) := by
  have hp : 0 < deadline := by omega
  refine ⟨fun pair t mid n hh hf hc ht he => ?_, fun pair hh hd => ?_,
    fun pair hi => ?_, fun pair t mid n hh hf ha hfu => ?_⟩
  · have blocked := blocked_of_failed past hh hf
    have after := blocked.run hp mid fun m hi => ?_
    · rw [after.refused hp ht he]
    have order := (pairwise_cons.1 hc.2).1 m (mem_append_left _ hi)
    have forward := hc.1 m (mem_cons_of_mem _ (mem_append_left _ hi))
    omega
  · revert hd
    refine serve_elim deadline (run deadline past) c nofun nofun fun _ other ht _ => ?_
    cases hh.symm.trans ht
    exact AList.lookup_erase ..
  · refine serve_elim deadline (run deadline past) c (fun _ _ => .inl hi)
      (fun _ _ other t _ => .inl ?_) fun _ other ht => ?_
    · unfold Listener.recordFailure
      split
      · exact hi
      · exact (AList.mem_insert _).2 (.inr hi)
    · by_cases hs : pair = other
      · exact .inr ⟨hs ▸ ht, rfl⟩
      · exact .inl (AList.mem_erase.2 ⟨hs, hi⟩)
  · have hen : (run deadline (c :: past)).exhausted = true := by
      rw [run]
      revert hf
      refine serve_elim deadline (run deadline past) c nofun (fun _ _ other _ ht _ => ?_) nofun
      cases hh.symm.trans ht
      rw [Listener.recordFailure, if_pos ⟨AList.lookup_eq_none.2 ha, hfu⟩]
    have hst : (run deadline (mid ++ c :: past)).exhausted = true := by
      induction mid with
      | nil => exact hen
      | cons m mid hb =>
        rw [cons_append, run, exhausted_refused hb]
        exact hb
    rw [exhausted_refused hst]

/-- A peer whose key is not known. -/
def stranger (peer : UInt32) (start : ℕ) : Connection :=
  ⟨peer, start, start, some ⟨7, [1]⟩, .unknownPeer⟩

/-- The second failure in a row blocks for half a second; another peer fails in between. -/
theorem back_off_stranger :
    streak 3000 (1, 7) [stranger 1 400, stranger 1 100] = 2 ∧
    (serve 3000 (run 3000 [stranger 2 500, stranger 1 400, stranger 1 100])
      (stranger 1 800)).signed = false := by
  have twice : streak 3000 (1, 7) [stranger 1 400, stranger 1 100] = 2 := by decide +kernel
  refine ⟨twice, (back_off 3000 (by decide) [stranger 1 100] (stranger 1 400)).1 (1, 7) 400
    [stranger 2 500] (stranger 1 800) rfl ?_ ⟨?_, ?_⟩ rfl ?_⟩
  · decide +kernel
  · simp [stranger]
  · simp [stranger]
  · rw [twice]
    decide

end VitaDebugger.AuthBackoff
