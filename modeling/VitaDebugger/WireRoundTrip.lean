import VitaDebugger.StreamRoundTrip

/-! Version 1 captures of the profiler: a header and the events behind it. What the writer encodes
the cursor reads back, and whatever the cursor accepts is what the writer encodes. -/

namespace VitaDebugger.WireRoundTrip
open List LittleEndian ProfilerEvent StreamRoundTrip Nat

/-- `struct vp_wire_header`. -/
structure WireHeader where
  magic : UInt32
  version : UInt16
  headerSize : UInt16
  eventSize : UInt16
  flags : UInt16
  clockHz : UInt32
  streamStartUs : UInt64
  reserved : UInt64
  deriving DecidableEq

abbrev wireHeaderSize : ℕ := 32

def vpWireHeaderInit (streamStartUs : UInt64) : WireHeader :=
  ⟨0x46525056, 1, 32, 32, 1, 1000000, streamStartUs, 0⟩

def vpEncodeWireHeaderLe (header : WireHeader) : Bytes :=
  writeU32Le header.magic ++ (writeU16Le header.version ++ (writeU16Le header.headerSize ++
    (writeU16Le header.eventSize ++ (writeU16Le header.flags ++ (writeU32Le header.clockHz ++
      (writeU64Le header.streamStartUs ++ writeU64Le header.reserved))))))

def vpDecodeWireHeaderLe (input : Bytes) : Except VpError WireHeader :=
  if input.length < wireHeaderSize then .error .malformed
  else
    let decoded : WireHeader := ⟨readU32Le input 0, readU16Le input 4, readU16Le input 6,
      readU16Le input 8, readU16Le input 10, readU32Le input 12, readU64Le input 16,
      readU64Le input 24⟩
    if decoded.magic ≠ 0x46525056 then .error .malformed
    else if decoded.version ≠ 1 ∨ decoded.headerSize ≠ 32 ∨ decoded.eventSize ≠ 32 ∨
        decoded.flags ≠ 1 ∨ decoded.clockHz ≠ 1000000 then .error .unsupported
    else if decoded.reserved ≠ 0 then .error .malformed
    else .ok decoded

/-- `struct vp_wire_info`. -/
structure WireInfo where
  streamStartUs : UInt64
  eventCount : ℕ
  totalSize : ℕ
  clockHz : UInt32
  version : UInt16
  flags : UInt16

def vpWireValidateLe (input : Bytes) : Except VpError WireInfo :=
  match vpDecodeWireHeaderLe input with
  | .error e => .error e
  | .ok header =>
    let payloadSize := input.length - wireHeaderSize
    if payloadSize % wireEventSize ≠ 0 then .error .malformed
    else .ok ⟨header.streamStartUs, payloadSize / wireEventSize, input.length, header.clockHz,
      header.version, header.flags⟩

/-- `struct vp_wire_cursor`. -/
structure WireCursor where
  data : Bytes
  totalSize : ℕ
  offset : ℕ
  remaining : ℕ

def vpWireCursorInit (input : Bytes) : Except VpError (WireCursor × WireInfo) :=
  match vpWireValidateLe input with
  | .error e => .error e
  | .ok parsed => .ok (⟨input, input.length, wireHeaderSize, parsed.eventCount⟩, parsed)

/-- The next event and the cursor behind it; at the end there is none. -/
def vpWireCursorNext (cursor : WireCursor) : Except VpError (Option (Event × WireCursor)) :=
  if cursor.remaining = 0 then .ok none
  else if cursor.totalSize < cursor.offset ∨ cursor.totalSize - cursor.offset < wireEventSize then
    .error .malformed
  else match vpDecodeEventLe (cursor.data.drop cursor.offset) with
    | .error e => .error e
    | .ok event => .ok (some (event, { cursor with
        offset := cursor.offset + wireEventSize
        remaining := cursor.remaining - 1 }))

/-- Calls of `vpWireCursorNext` give the events in order and then the end. -/
inductive Yields : WireCursor → List Event → Prop
  | done {cursor : WireCursor} (ended : vpWireCursorNext cursor = .ok none) : Yields cursor []
  | next {cursor after : WireCursor} {event : Event} {events : List Event}
      (first : vpWireCursorNext cursor = .ok (some (event, after))) (others : Yields after events) :
      Yields cursor (event :: events)

section Fields
variable {i : Bytes} {o : ℕ}

theorem take_drop_succ (hi : o < i.length) (n : ℕ) :
    (i.drop o).take (n + 1) = byteAt i o :: (i.drop (o + 1)).take n := by
  rw [drop_eq_getElem_cons hi, take_succ_cons, byteAt, getD_eq_getElem _ _ hi]

theorem writeU16Le_read (hi : o + 2 ≤ i.length) :
    writeU16Le (readU16Le i o) = (i.drop o).take 2 := by
  have low := (byteAt i o).toNat_lt
  have hh := (byteAt i (o + 1)).toNat_lt
  rw [take_drop_succ (by omega), take_drop_succ (by omega)]
  simp [writeU16Le, ← UInt8.toNat_inj, toNat_readU16Le, number, shiftRight_eq_div_pow]
  omega

theorem writeU32Le_read (hi : o + 4 ≤ i.length) :
    writeU32Le (readU32Le i o) = (i.drop o).take 4 := by
  have hfi := (byteAt i o).toNat_lt
  have hs := (byteAt i (o + 1)).toNat_lt
  have ht := (byteAt i (o + 1 + 1)).toNat_lt
  have hf := (byteAt i (o + 1 + 1 + 1)).toNat_lt
  rw [take_drop_succ (by omega), take_drop_succ (by omega), take_drop_succ (by omega),
    take_drop_succ (by omega)]
  simp [writeU32Le, ← UInt8.toNat_inj, toNat_readU32Le, number, shiftRight_eq_div_pow]
  omega

theorem writeU64Le_read (hi : o + 8 ≤ i.length) :
    writeU64Le (readU64Le i o) = (i.drop o).take 8 := by
  have hv : (readU64Le i o).toNat = number i o (4 + 4) := toNat_readU64Le ..
  rw [number_add, ← toNat_readU32Le, ← toNat_readU32Le] at hv
  have low := (readU32Le i o).toNat_lt
  have hh := (readU32Le i (o + 4)).toNat_lt
  have hl : (readU64Le i o).toUInt32 = readU32Le i o := by
    apply UInt32.toNat_inj.mp
    simp [hv]
  have hu : (readU64Le i o >>> 32).toUInt32 = readU32Le i (o + 4) := by
    apply UInt32.toNat_inj.mp
    simp [hv, shiftRight_eq_div_pow]
    omega
  rw [writeU64Le, hl, hu, writeU32Le_read (by omega), writeU32Le_read (by omega),
    ← drop_drop, ← take_add]

theorem window_append {next n m : ℕ} (ha : next = o + n) :
    (i.drop o).take n ++ (i.drop next).take m = (i.drop o).take (n + m) := by
  rw [ha, ← drop_drop, ← take_add]

theorem encode_decodeEvent {e : Event} (hd : vpDecodeEventLe i = .ok e) :
    vpEncodeEventLe e = i.take 32 := by
  unfold vpDecodeEventLe at hd
  split at hd
  · cases hd
  case isFalse hs =>
  have hl : 32 ≤ i.length := not_lt.mp hs
  cases hd
  rw [vpEncodeEventLe, vpDecodeI64Le_eq]
  simp (disch := omega) only [UInt64.toUInt64_toInt64, writeU16Le_read, writeU32Le_read,
    writeU64Le_read, window_append]
  rfl

theorem encode_decodeHeader {he : WireHeader} (hd : vpDecodeWireHeaderLe i = .ok he) :
    he = vpWireHeaderInit he.streamStartUs ∧ vpEncodeWireHeaderLe he = i.take 32 := by
  unfold vpDecodeWireHeaderLe at hd
  split at hd
  · cases hd
  case isFalse hs =>
  have hl : 32 ≤ i.length := not_lt.mp hs
  dsimp only at hd
  split at hd
  · cases hd
  split at hd
  · cases hd
  split at hd
  · cases hd
  case isFalse hm hf hr =>
  cases hd
  constructor
  · simp only [ne_eq, not_or, not_not] at hm hf hr
    simp [vpWireHeaderInit, hm, hf, hr]
  · rw [vpEncodeWireHeaderLe]
    simp (disch := omega) only [writeU16Le_read, writeU32Le_read, writeU64Le_read, window_append]
    rfl

end Fields

theorem yields_rest (d : Bytes) (r offset : ℕ)
    (hs : d.length = offset + 32 * r) :
    ∃ es, Yields ⟨d, d.length, offset, r⟩ es ∧
      es.flatMap vpEncodeEventLe = d.drop offset := by
  induction r generalizing offset with
  | zero => exact ⟨[], .done rfl, (drop_eq_nil_of_le (by omega)).symm⟩
  | succ r ih =>
    obtain ⟨es, ho, hr⟩ := ih (offset + 32) (by omega)
    have hl : ¬d.length - offset < 32 := by omega
    obtain ⟨e, hd⟩ : ∃ e, vpDecodeEventLe (d.drop offset) = .ok e :=
      ⟨_, if_neg (by rwa [length_drop])⟩
    refine ⟨e :: es, .next ?_ ho, ?_⟩
    · unfold vpWireCursorNext
      rw [if_neg (succ_ne_zero _), if_neg (not_or.mpr ⟨by dsimp only; omega, hl⟩), hd]
      rfl
    · rw [flatMap_cons, hr, encode_decodeEvent hd, ← drop_drop, take_append_drop]

theorem decodeHeader_encode (ssu : UInt64) (p : Bytes) :
    vpDecodeWireHeaderLe (vpEncodeWireHeaderLe (vpWireHeaderInit ssu) ++ p) =
      .ok (vpWireHeaderInit ssu) := by
  unfold vpDecodeWireHeaderLe
  rw [if_neg (by simp [vpEncodeWireHeaderLe]; change 32 ≤ _; omega)]
  simp [vpEncodeWireHeaderLe, vpWireHeaderInit]

/-- The cursor opens on a header with whole events behind it and reads them. -/
theorem capture_yields (ssu : UInt64) {payload : Bytes}
    (hw : payload.length % 32 = 0) : ∃ c info events,
      vpWireCursorInit (vpEncodeWireHeaderLe (vpWireHeaderInit ssu) ++ payload) =
        .ok (c, info) ∧ Yields c events ∧ events.flatMap vpEncodeEventLe = payload := by
  have hh : (vpEncodeWireHeaderLe (vpWireHeaderInit ssu)).length = 32 := by
    simp [vpEncodeWireHeaderLe]
  have hd := decodeHeader_encode ssu payload
  generalize vpEncodeWireHeaderLe (vpWireHeaderInit ssu) = bs at hh hd ⊢
  have hs : (bs ++ payload).length = 32 + payload.length := by rw [length_append, hh]
  obtain ⟨events, hre, hr⟩ := yields_rest (bs ++ payload) (payload.length / 32) 32 (by omega)
  rw [drop_left' hh] at hr
  refine ⟨_, ⟨ssu, payload.length / 32, 32 + payload.length, 1000000, 1, 1⟩, events, ?_,
    hre, hr⟩
  rw [vpWireCursorInit, vpWireValidateLe, hd]
  dsimp only
  rw [hs, Nat.add_sub_cancel_left, if_neg (not_not.mpr hw)]
  rfl

theorem flatMap_encode_inj {f second : List Event}
    (hs : f.flatMap vpEncodeEventLe = second.flatMap vpEncodeEventLe) : f = second := by
  have hl := congrArg length hs
  rw [length_flatMap_vpEncodeEventLe, length_flatMap_vpEncodeEventLe] at hl
  have hd := decodeEvents_encode f
  rw [hs, Nat.eq_of_mul_eq_mul_left (by decide) hl, decodeEvents_encode] at hd
  exact (Except.ok.inj hd).symm

/-- The cursor reads exactly the events of a capture, and a capture that it accepts is the encoding
of its header and of the events that it reads. -/
theorem wire_round_trip : (∀ streamStartUs events, ∃ cursor info,
      vpWireCursorInit (vpEncodeWireHeaderLe (vpWireHeaderInit streamStartUs) ++
        events.flatMap vpEncodeEventLe) = .ok (cursor, info) ∧ Yields cursor events) ∧
    ∀ input cursor info, vpWireCursorInit input = .ok (cursor, info) → ∃ header events,
      vpDecodeWireHeaderLe input = .ok header ∧ Yields cursor events ∧
        vpEncodeWireHeaderLe header ++ events.flatMap vpEncodeEventLe = input := by
  constructor
  · intro streamStartUs events
    have hw : (events.flatMap vpEncodeEventLe).length % 32 = 0 := by
      rw [length_flatMap_vpEncodeEventLe]
      exact mul_mod_right _ _
    obtain ⟨cursor, info, read, ho, hy, hs⟩ := capture_yields streamStartUs hw
    exact ⟨cursor, info, ho, flatMap_encode_inj hs ▸ hy⟩
  intro input cursor info ho
  have ha := ho
  unfold vpWireCursorInit vpWireValidateLe at ha
  cases hd : vpDecodeWireHeaderLe input with
  | error e =>
    rw [hd] at ha
    cases ha
  | ok header =>
    obtain ⟨hf, he⟩ := encode_decodeHeader hd
    rw [hd] at ha
    dsimp only at ha
    have hw : (input.drop 32).length % 32 = 0 := by
      rw [length_drop]
      by_contra hot
      rw [if_pos hot] at ha
      cases ha
    have hp : vpEncodeWireHeaderLe header ++ input.drop 32 = input := by
      rw [he, take_append_drop]
    obtain ⟨_, _, events, hr, hy, hs⟩ := capture_yields header.streamStartUs hw
    rw [← hf, hp, ho] at hr
    cases hr
    exact ⟨header, events, rfl, hy, by rw [hs, hp]⟩

/-- An event with the least signed value. -/
def leastEvent : Event := ⟨7, Int64.minValue, 1, 2, 3, 4, 5⟩

theorem wire_round_trip_least : ∃ cursor info, vpWireCursorInit
    (vpEncodeWireHeaderLe (vpWireHeaderInit 9) ++ [leastEvent].flatMap vpEncodeEventLe) =
      .ok (cursor, info) ∧ Yields cursor [leastEvent] :=
  wire_round_trip.1 9 [leastEvent]

end VitaDebugger.WireRoundTrip
