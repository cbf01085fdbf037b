import VitaDebugger.ChunkedScanner
import VitaDebugger.RspHex
import Mathlib.Tactic.Push

/-! The frame scanner of `uvdb_rsp_frame.c` and the receive loop of
`recv_packet`, including the pop of a served packet by `discard_packet`. -/

namespace VitaDebugger.RspFrame
open ChunkedScanner RspHex List

inductive FrameResult where
  | discard
  | incomplete
  | complete
  deriving DecidableEq

structure Frame where
  payloadOffset : ℕ
  payloadSize : ℕ
  consumedSize : ℕ
  requestNack : Bool
  deriving DecidableEq

def Frame.zero : Frame := ⟨0, 0, 0, false⟩

def Frame.drop (consumedSize : ℕ) : Frame := ⟨0, 0, consumedSize, false⟩

def Frame.nack (consumedSize : ℕ) : Frame := ⟨0, 0, consumedSize, true⟩

/-- The number of bytes before the first start marker. -/
def frameStart : Bytes → ℕ
  | [] => 0
  | byte :: rest => if byte = 36 then 0 else frameStart rest + 1

inductive MarkerScan where
  | found (marker : ℕ)
  | ended
  | refused (consumedSize : ℕ)

/-- The payload loop at index `marker`, whose bytes are the list. -/
def scanMarker (maximum : ℕ) : Bytes → ℕ → Bool → MarkerScan
  | [], _, _ => .ended
  | _ :: rest, marker, true =>
    if maximum ≤ marker - 1 then .refused (marker + 1)
    else scanMarker maximum rest (marker + 1) false
  | byte :: rest, marker, false =>
    if byte = 35 then .found marker
    else if byte = 125 then
      if maximum ≤ marker - 1 then .refused (marker + 1)
      else scanMarker maximum rest (marker + 1) true
    else if byte = 36 then .refused marker
    else if maximum ≤ marker - 1 then .refused (marker + 1)
    else scanMarker maximum rest (marker + 1) false

def checksum (payload : Bytes) : UInt8 := payload.foldl (· + ·) 0

/-- The part after the checksum digits are known to be buffered. -/
def checkFrame (input : Bytes) (marker : ℕ) : FrameResult × Frame :=
  match hexValue (input.getD (marker + 1) 0), hexValue (input.getD (marker + 2) 0) with
  | some high, some low =>
    if checksum (input.tail.take (marker - 1)) ≠ (high <<< 4 ||| low) then
      (.discard, .nack (marker + 3))
    else (.complete, ⟨1, marker - 1, marker + 3, false⟩)
  | _, _ => (.discard, .nack (marker + 3))

def rspScanFrame (input : Bytes) (maximum : ℕ) : FrameResult × Frame :=
  if input = [] then (.incomplete, .zero)
  else if frameStart input ≠ 0 then (.discard, .drop (frameStart input))
  else
    match scanMarker maximum input.tail 1 false with
    | .refused consumedSize => (.discard, .nack consumedSize)
    | .ended =>
      if maximum < input.length - 1 then (.discard, .nack input.length)
      else (.incomplete, .zero)
    | .found marker =>
      if maximum < marker - 1 then (.discard, .nack (marker + 1))
      else if input.length - marker < 3 then (.incomplete, .zero)
      else checkFrame input marker

def rspFrameShouldNack (frame : Frame) (noAck : Bool) : Bool := !noAck && frame.requestNack

inductive RecvEvent where
  | payload (bytes : Bytes)
  | nack
  deriving DecidableEq

/-- One round of the receive loop. A served packet is popped by its offset, its
size and the three bytes of its tail. -/
def recvScan (maximum : ℕ) (noAck : Bool) (buffer : Bytes) : Scan UInt8 RecvEvent :=
  match rspScanFrame buffer maximum with
  | (.incomplete, _) => .wait
  | (.complete, frame) =>
    if buffer.length < frame.payloadOffset + frame.payloadSize + 3 then .fail
    else .take (some (.payload ((buffer.drop frame.payloadOffset).take frame.payloadSize)))
      (buffer.drop (frame.payloadOffset + frame.payloadSize + 3))
  | (.discard, frame) =>
    if frame.consumedSize = 0 ∨ buffer.length < frame.consumedSize then .fail
    else .take (if rspFrameShouldNack frame noAck then some .nack else none)
      (buffer.drop frame.consumedSize)

def recvPackets (maximum : ℕ) (noAck : Bool) : ℕ → Bytes → List Bytes →
    Option (List RecvEvent × Bytes) := receive (recvScan maximum noAck)

variable {input rest : Bytes} {marker : ℕ} {frame : Frame} {escaped : Bool}
  {result : FrameResult} (more : Bytes)

section Marker
variable {maximum : ℕ}

theorem scanMarker_append (hd : scanMarker maximum rest marker escaped ≠ .ended) :
    scanMarker maximum (rest ++ more) marker escaped = scanMarker maximum rest marker escaped := by
  induction rest generalizing marker escaped with
  | nil => simp [scanMarker] at hd
  | cons byte rest ih =>
    cases escaped with
    | true =>
      simp only [cons_append, scanMarker] at hd ⊢
      split_ifs with hf
      · rfl
      · exact ih (by simpa [hf] using hd)
    | false =>
      simp only [cons_append, scanMarker] at hd ⊢
      split_ifs with hash escape hf start full' <;> try rfl
      · exact ih (by simpa [hash, escape, hf] using hd)
      · exact ih (by simpa [hash, escape, start, full'] using hd)

/-- Where the payload loop can stop, from an index whose payload still fits. -/
theorem scanMarker_bounds (rest : Bytes) (marker : ℕ) (escaped : Bool) (hp : 1 ≤ marker)
    (hfi : marker - 1 ≤ maximum) :
    match scanMarker maximum rest marker escaped with
    | .found m => marker ≤ m ∧ m < marker + rest.length ∧ m - 1 ≤ maximum
    | .ended => marker + rest.length - 1 ≤ maximum
    | .refused c => marker ≤ c ∧ c ≤ marker + rest.length := by
  induction rest generalizing marker escaped with
  | nil => simpa [scanMarker] using hfi
  | cons byte rest ih =>
    have hn : ∀ escaped, ¬maximum ≤ marker - 1 →
        match scanMarker maximum rest (marker + 1) escaped with
        | .found m => marker ≤ m ∧ m < marker + (byte :: rest).length ∧ m - 1 ≤ maximum
        | .ended => marker + (byte :: rest).length - 1 ≤ maximum
        | .refused c => marker ≤ c ∧ c ≤ marker + (byte :: rest).length := by
      intro escaped hr
      have hl := ih (marker + 1) escaped (by omega) (by omega)
      rw [length_cons]
      cases ho : scanMarker maximum rest (marker + 1) escaped <;>
        simp only [ho] at hl ⊢ <;> omega
    cases escaped with
    | true =>
      simp only [scanMarker]
      split_ifs with hf
      · simp only [length_cons]
        omega
      · exact hn false hf
    | false =>
      simp only [scanMarker]
      split_ifs with hash escape hf start hf'
      · simp only [length_cons]
        omega
      · simp only [length_cons]
        omega
      · exact hn true hf
      · omega
      · simp only [length_cons]
        omega
      · exact hn false hf'

theorem frameStart_le (input : Bytes) : frameStart input ≤ input.length := by
  induction input with
  | nil => exact Nat.le_refl 0
  | cons byte rest ih =>
    rw [frameStart, length_cons]
    split <;> omega

theorem frameStart_append (input more : Bytes) : frameStart (input ++ more) =
      if frameStart input < input.length then frameStart input
      else input.length + frameStart more := by
  induction input with
  | nil => simp [frameStart]
  | cons byte rest ih =>
    by_cases hm : byte = 36
    · simp [frameStart, hm]
    · simp only [cons_append, frameStart, hm, ↓reduceIte, ih, length_cons,
        Nat.add_lt_add_iff_right]
      split <;> omega

/-- The dispositions of a scan. The size tests after the payload loop never
fire, because the loop already stopped at the first byte that does not fit. -/
inductive FrameCase (input : Bytes) (maximum : ℕ) : FrameResult × Frame → Prop
  | wait : FrameCase input maximum (.incomplete, .zero)
  | noise (positive : frameStart input ≠ 0) :
      FrameCase input maximum (.discard, .drop (frameStart input))
  | refused {consumed : ℕ} (start : frameStart input = 0) (filled : input ≠ [])
      (stopped : scanMarker maximum input.tail 1 false = .refused consumed) :
      FrameCase input maximum (.discard, .nack consumed)
  | checked {marker : ℕ} (start : frameStart input = 0) (filled : input ≠ [])
      (stopped : scanMarker maximum input.tail 1 false = .found marker)
      (whole : marker + 3 ≤ input.length) : FrameCase input maximum (checkFrame input marker)

theorem rspScanFrame_refused {c : ℕ} (hst : frameStart input = 0) (hf : input ≠ [])
    (hs : scanMarker maximum input.tail 1 false = .refused c) :
    rspScanFrame input maximum = (.discard, .nack c) := by
  simp [rspScanFrame, hf, hst, hs]

theorem rspScanFrame_found (hst : frameStart input = 0) (hf : input ≠ [])
    (hs : scanMarker maximum input.tail 1 false = .found marker)
    (hw : marker + 3 ≤ input.length) : rspScanFrame input maximum = checkFrame input marker := by
  have hbo := scanMarker_bounds input.tail 1 false (Nat.le_refl 1) (Nat.zero_le maximum)
  simp only [hs] at hbo
  have hfi : ¬maximum < marker - 1 := by omega
  have hb : ¬input.length - marker < 3 := by omega
  simp only [rspScanFrame, hf, hst, hs, hfi, hb, ne_eq, not_true, ↓reduceIte]

theorem rspScanFrame_cases (input : Bytes) (maximum : ℕ) :
    FrameCase input maximum (rspScanFrame input maximum) := by
  by_cases hf : input = []
  · simpa [rspScanFrame, hf] using .wait
  by_cases hst : frameStart input = 0
  · have hb := scanMarker_bounds input.tail 1 false (Nat.le_refl 1) (Nat.zero_le maximum)
    cases hs : scanMarker maximum input.tail 1 false with
    | refused consumed =>
      rw [rspScanFrame_refused hst hf hs]
      exact .refused hst hf hs
    | ended =>
      simp only [hs, length_tail] at hb
      have hfi : ¬maximum < input.length - 1 := by
        omega
      simpa [rspScanFrame, hf, hst, hs, hfi] using .wait
    | found marker =>
      by_cases hw : marker + 3 ≤ input.length
      · rw [rspScanFrame_found hst hf hs hw]
        exact .checked hst hf hs hw
      simp only [hs] at hb
      have hfi : ¬maximum < marker - 1 := by omega
      have hsh : input.length - marker < 3 := by omega
      simpa [rspScanFrame, hf, hst, hs, hfi, hsh] using .wait
  · simpa [rspScanFrame, hf, hst] using .noise hst

theorem checkFrame_append (hw : marker + 3 ≤ input.length) :
    checkFrame (input ++ more) marker = checkFrame input marker := by
  have hd : ∀ i, i < input.length → (input ++ more).getD i 0 = input.getD i 0 := by
    intro i hi
    simp [getD_eq_getElem?_getD, getElem?_append_left hi]
  have hp : (input ++ more).tail.take (marker - 1) = input.tail.take (marker - 1) := by
    rw [tail_append_of_ne_nil (ne_nil_of_length_pos (by omega)),
      take_append_of_le_length (by rw [length_tail]; omega)]
  rw [checkFrame, checkFrame, hd _ (by omega), hd _ (by omega), hp]

theorem checkFrame_cases (input : Bytes) (marker : ℕ) :
    checkFrame input marker = (.discard, .nack (marker + 3)) ∨
      checkFrame input marker = (.complete, ⟨1, marker - 1, marker + 3, false⟩) := by
  rw [checkFrame]
  split
  · split_ifs
    · exact .inl rfl
    · exact .inr rfl
  · exact .inl rfl

/-- Bytes the payload loop runs over to its end: an escape takes the next byte with it. -/
def Runs : Bool → Bytes → Prop
  | escaped, [] => escaped = false
  | true, _ :: rest => Runs false rest
  | false, byte :: rest => byte ≠ 35 ∧ byte ≠ 36 ∧ Runs (byte = 125) rest

theorem scanMarker_runs {p : Bytes} (rest : Bytes) (hr : Runs escaped p)
    (hp : 1 ≤ marker) (hf : marker - 1 + p.length ≤ maximum) :
    scanMarker maximum (p ++ 35 :: rest) marker escaped = .found (marker + p.length) := by
  induction p generalizing marker escaped with
  | nil =>
    subst hr
    rfl
  | cons byte p ih =>
    rw [length_cons] at hf ⊢
    have hro : ¬maximum ≤ marker - 1 := by omega
    have hn : ∀ escaped, Runs escaped p → scanMarker maximum (p ++ 35 :: rest)
        (marker + 1) escaped = .found (marker + (p.length + 1)) := by
      intro escaped hr
      rw [ih hr (by omega) (by omega)]
      congr 1
      omega
    rw [cons_append]
    cases escaped with
    | true => rw [scanMarker, if_neg hro, hn false hr]
    | false =>
      obtain ⟨hh, hs, hr⟩ := hr
      rw [scanMarker, if_neg hh]
      by_cases he : byte = 125
      · rw [if_pos he, if_neg hro, hn true (by simpa [he] using hr)]
      · rw [if_neg he, if_neg hs, if_neg hro, hn false (by simpa [he] using hr)]

theorem scanMarker_found {bs : Bytes} {f : ℕ}
    (hs : scanMarker maximum bs marker escaped = .found f) :
    ∃ p rest, bs = p ++ 35 :: rest ∧ Runs escaped p ∧
      f = marker + p.length := by
  induction bs generalizing marker escaped with
  | nil => cases hs
  | cons byte bs ih =>
    have hn : ∀ a, scanMarker maximum bs (marker + 1) a = .found f →
        (∀ p, Runs a p → Runs escaped (byte :: p)) →
        ∃ p rest, byte :: bs = p ++ 35 :: rest ∧ Runs escaped p ∧
          f = marker + p.length := by
      intro a hs hl
      obtain ⟨p, rest, rfl, hr, rfl⟩ := ih hs
      exact ⟨byte :: p, rest, rfl, hl p hr, by rw [length_cons]; omega⟩
    cases escaped with
    | true =>
      rw [scanMarker] at hs
      split_ifs at hs
      exact hn false hs fun _ hr => hr
    | false =>
      rw [scanMarker] at hs
      split_ifs at hs with hh he full hst full'
      · cases hs
        exact ⟨[], bs, by rw [hh]; rfl, rfl, rfl⟩
      · exact hn true hs fun _ hr => ⟨hh, by rw [he]; decide, by simpa [he] using hr⟩
      · exact hn false hs fun _ hr => ⟨hh, hst, by simpa [he] using hr⟩

/-- A whole packet at the front of the input, with its checksum. -/
structure Packet (input payload : Bytes) (high low : UInt8) (rest : Bytes) : Prop where
  bytes : input = 36 :: (payload ++ 35 :: high :: low :: rest)
  runs : Runs false payload
  sum : ∃ h l, hexValue high = some h ∧ hexValue low = some l ∧ checksum payload = h <<< 4 ||| l

theorem Packet.complete {p : Bytes} {high low : UInt8}
    (hp : Packet input p high low rest) (hfi : p.length ≤ maximum) :
    rspScanFrame input maximum = (.complete, ⟨1, p.length, p.length + 4, false⟩) := by
  obtain ⟨rfl, hr, h, l, hhd, hld, sum⟩ := hp
  have hf := scanMarker_runs (high :: low :: rest) hr (Nat.le_refl 1) (by simpa using hfi)
  rw [rspScanFrame_found rfl (cons_ne_nil _ _) hf (by simp; omega)]
  have hpl : 1 + p.length + 1 = p.length + 2 ∧
      1 + p.length + 2 = p.length + 3 := by omega
  simp only [checkFrame, hpl, getD_eq_getElem?_getD, getElem?_cons_succ]
  simp [hhd, hld, sum, Nat.add_comm 1]

/-- The scanner reports a packet exactly where there is one. -/
theorem rspScanFrame_complete_iff : rspScanFrame input maximum = (.complete, frame) ↔
      ∃ p hg low rest, Packet input p hg low rest ∧ p.length ≤ maximum ∧
        frame = ⟨1, p.length, p.length + 4, false⟩ := by
  refine ⟨fun hco => ?_, ?_⟩
  · have cases := rspScanFrame_cases input maximum
    rw [hco] at cases
    generalize ho : (FrameResult.complete, frame) = result at cases
    cases cases with
    | wait => cases ho
    | noise => cases ho
    | refused => cases ho
    | @checked m hsa hf hst hw =>
      have bounds := scanMarker_bounds input.tail 1 false (Nat.le_refl 1) (Nat.zero_le maximum)
      simp only [hst] at bounds
      obtain ⟨f, tail, rfl⟩ := exists_cons_of_ne_nil hf
      have hd : f = 36 := by
        by_contra hot
        simp [frameStart, hot] at hsa
      obtain ⟨p, b, split, runs, rfl⟩ := scanMarker_found hst
      subst split hd
      match b, hw with
      | hg :: low :: rest, hw =>
        have place : 1 + p.length + 1 = p.length + 2 ∧
            1 + p.length + 2 = p.length + 3 := by omega
        simp only [checkFrame, place, getD_eq_getElem?_getD, getElem?_cons_succ] at ho
        split at ho
        · next h l highDigit lowDigit =>
          split at ho
          · cases ho
          next sum =>
          simp at highDigit lowDigit sum
          cases ho
          refine ⟨p, hg, low, rest, ⟨rfl, runs, h, l, highDigit, lowDigit, sum⟩, ?_, ?_⟩
          · omega
          · simp [Nat.add_comm 1]
        · cases ho
      | [], hw =>
        simp only [length_cons, length_append, length_nil] at hw
        omega
      | [_], hw => simp at hw
  · rintro ⟨p, hg, low, rest, packet, fits, rfl⟩
    exact packet.complete fits

/-- Every disposition other than waiting consumes a first part of the buffer. -/
theorem rspScanFrame_consumes (hsc : rspScanFrame input maximum = (result, frame))
    (hd : result ≠ .incomplete) :
    1 ≤ frame.consumedSize ∧ frame.consumedSize ≤ input.length := by
  have bounds := scanMarker_bounds input.tail 1 false (Nat.le_refl 1) (Nat.zero_le maximum)
  have cases := rspScanFrame_cases input maximum
  rw [hsc] at cases
  generalize outcome : (result, frame) = disposition at cases
  cases cases with
  | wait => simp_all
  | noise positive =>
    obtain ⟨rfl, rfl⟩ := Prod.mk.inj outcome
    exact ⟨Nat.one_le_iff_ne_zero.mpr positive, frameStart_le input⟩
  | refused start filled stopped =>
    obtain ⟨rfl, rfl⟩ := Prod.mk.inj outcome
    simp only [stopped, length_tail] at bounds
    have := length_pos_of_ne_nil filled
    simp only [Frame.nack]
    omega
  | checked start filled stopped whole =>
    rename_i marker
    rcases checkFrame_cases input marker with refused | complete
    · obtain ⟨rfl, rfl⟩ := Prod.mk.inj (outcome.trans refused)
      simp only [Frame.nack]
      omega
    · obtain ⟨rfl, rfl⟩ := Prod.mk.inj (outcome.trans complete)
      simp only
      omega

theorem rspScanFrame_complete (hc : rspScanFrame input maximum = (.complete, frame)) :
    frame.payloadOffset + frame.payloadSize + 3 = frame.consumedSize := by
  obtain ⟨payload, -, -, -, -, -, rfl⟩ := rspScanFrame_complete_iff.mp hc
  dsimp only
  omega

/-- What a round takes, in terms of the scan alone. -/
def Takes (noAck : Bool) (input : Bytes) : FrameResult × Frame → Scan UInt8 RecvEvent
  | (.incomplete, _) => .wait
  | (.complete, frame) =>
    .take (some (.payload ((input.drop frame.payloadOffset).take frame.payloadSize)))
      (input.drop frame.consumedSize)
  | (.discard, frame) =>
    .take (if rspFrameShouldNack frame noAck then some .nack else none)
      (input.drop frame.consumedSize)

theorem recvScan_eq (maximum : ℕ) (noAck : Bool) (input : Bytes) :
    recvScan maximum noAck input = Takes noAck input (rspScanFrame input maximum) := by
  rw [recvScan]
  rcases ho : rspScanFrame input maximum with ⟨result, frame⟩
  cases result with
  | incomplete => rfl
  | discard =>
    obtain ⟨low, hh⟩ := rspScanFrame_consumes ho (by simp)
    have hs : ¬(frame.consumedSize = 0 ∨ input.length < frame.consumedSize) := by omega
    simp only [hs, ↓reduceIte, Takes]
  | complete =>
    obtain ⟨low, hh⟩ := rspScanFrame_consumes ho (by simp)
    have hsi := rspScanFrame_complete ho
    have hs : ¬input.length < frame.consumedSize := by omega
    simp only [hsi, hs, ↓reduceIte, Takes]

theorem recvScan_shrinks {noAck : Bool} {e : Option RecvEvent}
    (ht : recvScan maximum noAck input = .take e rest) : rest.length < input.length := by
  rw [recvScan_eq] at ht
  rcases ho : rspScanFrame input maximum with ⟨result, frame⟩
  rw [ho] at ht
  have hs : result ≠ .incomplete → rest = input.drop frame.consumedSize →
      rest.length < input.length := by
    rintro hd rfl
    have := rspScanFrame_consumes ho hd
    rw [length_drop]
    omega
  cases result with
  | incomplete => simp [Takes] at ht
  | discard =>
    simp only [Takes, Scan.take.injEq] at ht
    exact hs (by simp) ht.2.symm
  | complete =>
    simp only [Takes, Scan.take.injEq] at ht
    exact hs (by simp) ht.2.symm

/-- A scan that is not noise up to the end of the buffer sees no more of a
longer one. -/
theorem rspScanFrame_append (hsc : rspScanFrame input maximum = (result, frame))
    (hd : result ≠ .incomplete) (hm : frameStart input < input.length) :
    rspScanFrame (input ++ more) maximum = (result, frame) := by
  have start : frameStart (input ++ more) = frameStart input := by
    rw [frameStart_append, if_pos hm]
  have filled : input ≠ [] := ne_nil_of_length_pos (by omega)
  have hl : input ++ more ≠ [] := by simp [filled]
  have ht : (input ++ more).tail = input.tail ++ more := tail_append_of_ne_nil filled
  have cases := rspScanFrame_cases input maximum
  rw [hsc] at cases
  generalize ho : (result, frame) = disposition at cases
  cases cases with
  | wait => simp_all
  | noise hp => simp [rspScanFrame, filled, start, hp]
  | refused hb _ hs =>
    apply rspScanFrame_refused (start.trans hb) hl
    rw [ht, scanMarker_append more (by simp [hs]), hs]
  | checked hb _ hs hw =>
    rename_i hma
    rw [← checkFrame_append more hw]
    apply rspScanFrame_found (start.trans hb) hl
    · rw [ht, scanMarker_append more (by simp [hs]), hs]
    · rw [length_append]
      omega

theorem Takes_append {noAck : Bool} {e : Option RecvEvent}
    (hs : rspScanFrame input maximum = (result, frame))
    (ht : Takes noAck input (result, frame) = .take e rest) :
    Takes noAck (input ++ more) (result, frame) = .take e (rest ++ more) := by
  cases result with
  | incomplete => simp [Takes] at ht
  | discard =>
    obtain ⟨low, hh⟩ := rspScanFrame_consumes hs (by simp)
    simp only [Takes, Scan.take.injEq] at ht ⊢
    exact ⟨ht.1, by rw [drop_append_of_le_length hh, ht.2]⟩
  | complete =>
    obtain ⟨low, hh⟩ := rspScanFrame_consumes hs (by simp)
    have hsi := rspScanFrame_complete hs
    simp only [Takes, Scan.take.injEq] at ht ⊢
    refine ⟨?_, by rw [drop_append_of_le_length hh, ht.2]⟩
    rw [← ht.1, drop_append_of_le_length (by omega),
      take_append_of_le_length (by rw [length_drop]; omega)]

theorem recvScan_noise (maximum : ℕ) (noAck : Bool) (hf : input ≠ [])
    (hn : frameStart input = input.length) (more : Bytes) :
    recvScan maximum noAck (input ++ more) = .take none (more.drop (frameStart more)) := by
  have hst : frameStart (input ++ more) = input.length + frameStart more := by
    rw [frameStart_append, if_neg (by omega)]
  have hp := length_pos_of_ne_nil hf
  have hs : rspScanFrame (input ++ more) maximum =
      (.discard, .drop (input.length + frameStart more)) := by
    rw [rspScanFrame, if_neg (by simp [hf]), hst, if_pos (by omega)]
  rw [recvScan_eq, hs]
  simp [Takes, rspFrameShouldNack, Frame.drop, drop_append]

theorem recvScan_lawful (maximum : ℕ) (noAck : Bool) : Lawful (recvScan maximum noAck) where
  safe := by
    intro input
    rw [recvScan_eq]
    rcases rspScanFrame input maximum with ⟨result, frame⟩
    cases result <;> simp [Takes]
  nil := rfl
  shrinks := fun _ _ _ ht => recvScan_shrinks ht
  stable := by
    intro input event rest more ht
    have hf : input ≠ [] := by
      rintro rfl
      simp [recvScan, rspScanFrame] at ht
    rcases Nat.lt_or_eq_of_le (frameStart_le input) with hm | hno
    · left
      rw [recvScan_eq] at ht ⊢
      rcases ho : rspScanFrame input maximum with ⟨result, frame⟩
      rw [ho] at ht
      have hd : result ≠ .incomplete := by
        rintro rfl
        simp [Takes] at ht
      rw [rspScanFrame_append more ho hd hm]
      exact Takes_append more ho ht
    right
    have ha := recvScan_noise maximum noAck hf hno []
    rw [append_nil, ht, Scan.take.injEq] at ha
    refine ⟨ha.1, by simpa using ha.2, _, recvScan_noise maximum noAck hf hno more, ?_⟩
    by_cases hs : frameStart more = 0
    · exact .inl (by simp [hs])
    right
    have hn : more ≠ [] := by
      rintro rfl
      exact hs rfl
    have hsc : rspScanFrame more maximum = (.discard, .drop (frameStart more)) := by
      rw [rspScanFrame, if_neg hn, if_pos hs]
    rw [recvScan_eq, hsc]
    simp [Takes, rspFrameShouldNack, Frame.drop]

theorem length_le_flatten {rs : List Bytes} (hf : ∀ r ∈ rs, r ≠ []) :
    rs.length ≤ rs.flatten.length := by
  induction rs with
  | nil => exact Nat.le_refl 0
  | cons r rs ih =>
    have hp := length_pos_of_ne_nil (hf r mem_cons_self)
    have hr := ih fun o hm => hf o (mem_cons_of_mem r hm)
    rw [flatten_cons, length_append, length_cons]
    omega

/-- However a stream is cut into reads, the receive loop ends, hands out the
payloads and NACK requests of the stream available at once in the same order, and
keeps the same unconsumed bytes. -/
theorem recvPackets_chunking (maximum : ℕ) (noAck : Bool) (reads : List Bytes)
    (filled : ∀ read ∈ reads, read ≠ []) :
    (∃ events rest, ∀ fuel, 2 * reads.flatten.length < fuel →
      recvPackets maximum noAck fuel [] reads = some (events, rest) ∧
      recvPackets maximum noAck fuel reads.flatten [] = some (events, rest)) ∧
    ∀ input result frame, rspScanFrame input maximum = (result, frame) →
      result ≠ .incomplete → 1 ≤ frame.consumedSize ∧ frame.consumedSize ≤ input.length := by
  have hl := recvScan_lawful maximum noAck
  have hc := length_le_flatten filled
  refine ⟨?_, fun _ _ _ => rspScanFrame_consumes⟩
  rcases ho : drainAll (recvScan maximum noAck) reads.flatten with ⟨events, rest⟩
  refine ⟨events, rest, fun fuel he => ⟨?_, ?_⟩⟩
  · rw [recvPackets, receive_eq hl fuel [] reads (by simp only [length_nil]; omega),
      nil_append, ho]
  · rw [recvPackets, receive_eq hl fuel reads.flatten []
      (by simp only [flatten_nil, length_nil]; omega), flatten_nil,
      append_nil, ho]

/-- Noise, a frame cut inside its checksum, and a frame that is superseded. -/
theorem recvPackets_chunking_cut_checksum :
    (∀ read ∈ [[43, 36, 103, 35, 54], [55, 36, 97], [36, 97]], read ≠ ([] : Bytes)) ∧
    recvPackets 8 false 21 [] [[43, 36, 103, 35, 54], [55, 36, 97], [36, 97]] =
      recvPackets 8 false 21 [43, 36, 103, 35, 54, 55, 36, 97, 36, 97] [] ∧
    recvPackets 8 false 21 [] [[43, 36, 103, 35, 54], [55, 36, 97], [36, 97]] =
      some ([.payload [103], .nack], [36, 97]) := by
  have hf : ∀ read ∈ [[43, 36, 103, 35, 54], [55, 36, 97], [36, 97]],
      read ≠ ([] : Bytes) := by decide
  obtain ⟨⟨events, rest, hs⟩, -⟩ := recvPackets_chunking 8 false _ hf
  obtain ⟨cut, hw⟩ := hs 21 (by decide)
  exact ⟨hf, cut.trans hw.symm, by decide⟩

end Marker
end VitaDebugger.RspFrame
