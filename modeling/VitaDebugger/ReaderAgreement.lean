import VitaDebugger.DecoderRules
import VitaDebugger.StreamRoundTrip

/-! The two readers of version 2 trace streams, in the profiler library and in the receiver,
accept the same streams and read the same events from them. -/

namespace VitaDebugger.ReaderAgreement
open List Option Nat
open LittleEndian ScanLoop ProfilerEvent NameDictionary NameAgreement TraceDecoder StreamRules
open DecoderRules
open StreamReader (ChunkView vpStreamV2CursorInit cursorChunks readStream chunksEvents)

/-- An event as the receiver shows it. -/
def traceEvent (index : ℕ) (event : Event) : TraceEvent where
  index
  timestampUs := event.timestampUs.toNat
  value := event.value.toInt
  nameId := event.nameId.toNat
  threadId := event.threadId.toNat
  correlationId := event.correlationId.toNat
  eventType := event.type.toNat
  flags := event.flags.toNat

theorem number_drop (input : Bytes) (s o w : ℕ) :
    number (input.drop s) o w = number input (s + o) w := by
  induction w generalizing o with
  | zero => rfl
  | succ w ih =>
    have hb : byteAt (input.drop s) o = byteAt input (s + o) := by
      simp [byteAt, getD_eq_getElem?_getD]
    rw [number, number, hb, ih, add_assoc]

theorem unpackEvent_drop (payload : Bytes) (s o i : ℕ) :
    unpackEvent (payload.drop s) o i = unpackEvent payload (s + o) i := by
  simp only [unpackEvent, signed, number_drop, add_assoc]

theorem toInt_vpDecodeI64Le (input : Bytes) (o : ℕ) :
    (vpDecodeI64Le input o).toInt = signed input o := by
  have hw : (vpDecodeI64Le input o).toInt = (readU64Le input o).toBitVec.toInt := by
    rw [vpDecodeI64Le_eq]
    rfl
  have raw : (readU64Le input o).toBitVec.toNat = number input o 8 := toNat_readU64Le ..
  rw [hw, BitVec.toInt_eq_toNat_cond, raw, signed]
  split <;> split <;> omega

theorem vpDecodeEventLe_unpack {payload : Bytes} (hl : 32 ≤ payload.length) (i : ℕ) :
    ∃ e, vpDecodeEventLe payload = .ok e ∧ unpackEvent payload 0 i = traceEvent i e := by
  refine ⟨_, if_neg (not_lt.mpr hl), ?_⟩
  simp only [unpackEvent, traceEvent, toNat_readU64Le, toNat_readU32Le, toNat_readU16Le,
    toInt_vpDecodeI64Le, zero_add]

theorem decodeEvents_unpack (c : ℕ) {payload : Bytes} (hl : c * 32 ≤ payload.length) :
    ∃ es, StreamReader.decodeEvents c payload = .ok es ∧ ∀ f,
      (List.range c).map (fun i => unpackEvent payload (i * 32) (f + i)) =
        es.mapIdx fun i e => traceEvent (f + i) e := by
  induction c generalizing payload with
  | zero => exact ⟨[], rfl, fun _ => rfl⟩
  | succ c ih =>
    have hh : 32 ≤ payload.length := by omega
    have hta : c * 32 ≤ (payload.drop 32).length := by
      rw [length_drop]
      omega
    obtain ⟨es, hd, hr⟩ := ih hta
    obtain ⟨e, ht, _⟩ := vpDecodeEventLe_unpack hh 0
    refine ⟨e :: es, ?_, fun f => ?_⟩
    · rw [StreamReader.decodeEvents, ht]
      rw [hd]
      rfl
    obtain ⟨same, ha, hs⟩ := vpDecodeEventLe_unpack hh f
    cases ht.symm.trans ha
    have ho := hr (f + 1)
    simp only [unpackEvent_drop] at ho
    rw [List.range_succ_eq_map, List.map_cons, List.map_map, List.mapIdx_cons, Nat.zero_mul,
      Nat.add_zero, hs]
    apply congrArg (traceEvent f e :: ·)
    calc (List.range c).map ((fun i => unpackEvent payload (i * 32) (f + i)) ∘ Nat.succ)
        = (List.range c).map fun i => unpackEvent payload (32 + i * 32) (f + 1 + i) := by
          apply map_congr_left
          intro i _
          change unpackEvent payload ((i + 1) * 32) (f + (i + 1)) = _
          rw [succ_mul, add_comm (i * 32), add_comm i 1, add_assoc]
      _ = es.mapIdx fun i e => traceEvent (f + (i + 1)) e := by
          rw [ho]
          simp only [add_assoc, add_comm 1]

theorem chunksEvents_streamEvents (chunks : List ChunkView) :
    ∃ es, chunksEvents chunks = .ok es ∧ ∀ f,
      streamEvents chunks f = es.mapIdx fun i e => traceEvent (f + i) e := by
  induction chunks with
  | nil => exact ⟨[], rfl, fun _ => rfl⟩
  | cons c chunks ih =>
    obtain ⟨os, hr, hs⟩ := ih
    have hh : ∃ es, StreamReader.chunkEvents c = .ok es ∧ ∀ f,
        chunkTraceEvents c.type c.payload f =
          es.mapIdx fun i e => traceEvent (f + i) e := by
      unfold StreamReader.chunkEvents chunkTraceEvents
      by_cases hk : c.type = .events
      · obtain ⟨es, hd, all⟩ := decodeEvents_unpack (c.payload.length / 32)
          (div_mul_le_self _ _)
        refine ⟨es, (if_pos hk).trans hd, fun f => ?_⟩
        rw [if_pos hk]
        exact all f
      · exact ⟨[], if_neg hk, fun f => if_neg hk⟩
    obtain ⟨es, hd, all⟩ := hh
    refine ⟨es ++ os, ?_, fun f => ?_⟩
    · rw [chunksEvents, hd]
      rw [hr]
      rfl
    · rw [streamEvents, all, hs, length_mapIdx, mapIdx_append]
      simp only [add_left_comm, add_comm]

variable {chunks : List ChunkView} {p : Progress}

theorem cursorChunks_frames {input : Bytes} {p' : Progress}
    (hf : Frames Frame input chunks) (run : Run p chunks p') (b : Bytes) (f : ℕ)
    (he : chunks.length < f) :
    cursorChunks f ⟨b ++ input, b.length, .ofNat p.sequence⟩ = .ok chunks := by
  induction hf generalizing b p f with
  | done =>
    obtain ⟨f, rfl⟩ : ∃ n, f = n + 1 := ⟨f - 1, by rw [length_nil] at he; omega⟩
    rw [cursorChunks, StreamReader.vpStreamV2CursorNext, if_pos (by simp)]
  | next hfi ho ih =>
    rename_i input rest c chunks
    rw [length_cons] at he
    obtain ⟨f, rfl⟩ : ∃ n, f = n + 1 := ⟨f - 1, by omega⟩
    obtain ⟨hd, rfl⟩ := hfi
    have ha := (StreamChunks.decode_ok hd).1
    change 32 + _ ≤ _ at ha
    cases run with
    | cons ht run =>
    have hmo : b.length ≠ (b ++ input).length := by
      rw [length_append]
      omega
    have hn : c.sequence = .ofNat p.sequence := by
      rw [← ht.sequence, UInt32.ofNat_toNat]
    have rest := ih run (b ++ input.take (32 + c.payload.length)) f (by omega)
    rw [append_assoc, take_append_drop, length_append, length_take,
      min_eq_left ha, ht.sequence_succ, UInt32.ofNat_add] at rest
    rw [cursorChunks, StreamReader.vpStreamV2CursorNext, if_neg hmo]
    rw [drop_left, hd]
    dsimp only
    rw [if_neg (not_not.mpr hn)]
    dsimp only
    have hm : cursorChunks f ⟨b ++ input, b.length + (32 + c.payload.length),
        .ofNat p.sequence + 1⟩ = .ok chunks := rest
    rw [hm]
    rfl

/-- The texts of a stream that the receiver displays: its names and its timer texts. -/
def streamTexts (input : Bytes) : List Bytes :=
  match cursorChunks (input.length + 1) ⟨input, 0, 0⟩ with
  | .ok chunks => chunks.flatMap chunkTexts
  | .error _ => []

variable {input : Bytes}

section Streams

theorem walk (hs : Stream input chunks p) :
    cursorChunks (input.length + 1) ⟨input, 0, 0⟩ = .ok chunks := by
  have hc := StreamRules.Frames.count_le hs.frames
  exact cursorChunks_frames hs.frames hs.run [] (input.length + 1) (by omega)

theorem streamTexts_eq (hs : Stream input chunks p) :
    streamTexts input = chunks.flatMap chunkTexts := by
  rw [streamTexts, walk hs]

theorem magic_of_stream (hst : Stream input chunks p) :
    number input 0 4 = chunkMagic ∧ 32 ≤ input.length := by
  obtain ⟨hf, run, he⟩ := hst
  cases hf with
  | done =>
    cases run
    cases he
  | next hfi ho =>
    obtain ⟨hs, _⟩ := decodeChunk_ok.mp hfi.1
    have ha := hs.whole
    exact ⟨hs.magic, by omega⟩

end Streams

/-- The decoder that has seen the first bytes of a version 2 stream. -/
def opened (maxBytes maxEvents rawSize : ℕ) : Decoder :=
  ⟨maxBytes, maxEvents, [], [], some .v2, rawSize, 0, 0, 0, none, none, [], 0, [], [], [], [], [],
    none, false, false, false⟩

variable {unicode : UnicodeData} {maxBytes maxEvents : ℕ} {d : Decoder}

theorem scan_mode {rawSize : ℕ} {rest : Bytes}
    (hs : scan (Decoder.round unicode) (opened maxBytes maxEvents rawSize) input = .ok (d, rest)) :
    d.mode = some .v2 ∧ d.finished = false := by
  refine scan_keeps (P := fun d => d.mode = some .v2 ∧ d.finished = false) ⟨rfl, rfl⟩ ?_ hs
  intro b bf a left hk hm
  obtain ⟨chunk, _, ht⟩ := (round_frames unicode b bf a left).mp hm
  have hsa := (Takes.of_take ht).2.2
  exact ⟨hsa.mode.trans hk.1, hsa.finished.trans hk.2⟩

def fresh (maxBytes maxEvents : ℕ) : Decoder :=
  ⟨maxBytes, maxEvents, [], [], none, 0, 0, 0, 0, none, none, [], 0, [], [], [], [], [], none,
    false,
    false, false⟩

theorem feed_v2 (unicode : UnicodeData) (maxBytes maxEvents : ℕ)
    (hm : number input 0 4 = chunkMagic) (hl : 32 ≤ input.length) :
    (fresh maxBytes maxEvents).feed unicode input =
      if maxBytes < input.length then
        refuse s!"capture exceeds the {maxBytes}-byte safety limit"
      else (opened maxBytes maxEvents input.length).decodeChunks unicode input := by
  have hn : input ≠ [] := by
    rintro rfl
    cases hl
  have he : ¬input.length < 4 := by omega
  unfold Decoder.feed fresh
  rw [if_neg Bool.false_ne_true, if_neg hn]
  dsimp only
  rw [zero_add, nil_append, if_neg he, if_pos hm]
  rfl

variable {capture : TraceCapture}

theorem finish_v2 {buffer : Bytes} (hm : d.mode = some .v2) (hru : d.finished = false) :
    { d with buffer }.finish unicode = .ok capture ↔ buffer = [] ∧ d.endSeen = true ∧
      { d with buffer := [], finished := true, complete := true }.snapshot false = .ok capture := by
  unfold Decoder.finish
  rw [refuse_ok]
  rw [hru, hm]
  rw [refuse_ok, refuse_ok, not_not, Bool.not_eq_false]
  constructor
  · rintro ⟨_, rfl, hr⟩
    exact ⟨rfl, hr⟩
  · rintro ⟨rfl, hr⟩
    exact ⟨Bool.false_ne_true, rfl, hr⟩

/-- The receiver takes a version 2 stream if its chunks use up its bytes and end it. -/
theorem decodeWithin_v2 (hm : number input 0 4 = chunkMagic) (hl : 32 ≤ input.length) :
    decodeWithin unicode maxBytes maxEvents input = .ok capture ↔ input.length ≤ maxBytes ∧
      ∃ d, scan (Decoder.round unicode) (opened maxBytes maxEvents input.length) input =
        .ok (d, []) ∧
        d.endSeen = true ∧
        { d with buffer := [], finished := true, complete := true }.snapshot false =
          .ok capture := by
  have fed := feed_v2 unicode maxBytes maxEvents hm hl
  unfold decodeWithin incrementalTraceDecoder
  by_cases hb : input.length ≤ maxBytes
  · have hc : ¬maxBytes < wireHeaderSize := not_lt.mpr (hl.trans hb)
    rw [if_neg (not_lt.mpr hb), Decoder.decodeChunks] at fed
    rw [if_neg hc]
    unfold fresh at fed
    dsimp only
    rw [fed]
    cases hsc : scan (Decoder.round unicode) (opened maxBytes maxEvents input.length) input with
    | error e => simp
    | ok r =>
      obtain ⟨d, buffer⟩ := r
      obtain ⟨hmo, hru⟩ := scan_mode hsc
      rw [finish_v2 hmo hru]
      constructor
      · rintro ⟨rfl, he, hs⟩
        exact ⟨hb, d, rfl, he, hs⟩
      · rintro ⟨_, other, hsa, he, hs⟩
        cases hsa
        exact ⟨rfl, he, hs⟩
  rw [if_pos (Nat.lt_of_not_le hb)] at fed
  refine iff_of_false (fun hd => ?_) fun ht => hb ht.1
  split at hd
  · cases hd
  case h_2 d hc =>
  obtain ⟨_, hc⟩ := guard_ok.mp hc
  cases hc
  have hr : (fresh maxBytes maxEvents).feed unicode input = _ := fed
  unfold fresh at hr
  rw [hr] at hd
  cases hd

theorem decodeV1Events_session {data : Bytes} {ns : List TraceDecoder.NameEntry}
    {dictionarySize : ℕ} (hd : decodeV1Events data ns dictionarySize = .ok capture) :
    capture.session = none := by
  unfold decodeV1Events at hd
  split at hd
  · cases hd
  obtain ⟨_, hd⟩ := refuse_ok.mp hd
  obtain ⟨_, hd⟩ := refuse_ok.mp hd
  cases hd
  rfl

theorem decodeV1Capture_session {data : Bytes}
    (hd : decodeV1Capture unicode data = .ok capture) : capture.session = none := by
  obtain ⟨_, hd⟩ := refuse_ok.mp hd
  split at hd
  · split at hd
    · cases hd
    · exact decodeV1Events_session hd
  · obtain ⟨_, hd⟩ := refuse_ok.mp hd
    exact decodeV1Events_session hd

/-- A capture with a session comes from a version 2 stream. -/
theorem v2_of_session (hd : decodeWithin unicode maxBytes maxEvents input = .ok capture)
    (hs : capture.session.isSome) : number input 0 4 = chunkMagic ∧ 32 ≤ input.length := by
  unfold decodeWithin incrementalTraceDecoder at hd
  split at hd
  · cases hd
  case h_2 d hc =>
  obtain ⟨_, hc⟩ := guard_ok.mp hc
  cases hc
  split at hd
  · cases hd
  case h_2 changed d fed =>
  unfold Decoder.feed at fed
  rw [if_neg Bool.false_ne_true] at fed
  split at fed
  · cases fed
    cases hd
  obtain ⟨_, fed⟩ := refuse_ok.mp fed
  dsimp only [nil_append] at fed
  split at fed
  · cases fed
    cases hd
  split at fed
  case isTrue hm =>
    refine ⟨hm, Nat.le_of_not_lt fun hsh => ?_⟩
    have hst : ∀ d, Decoder.round unicode d input = .ok none := fun d => if_pos hsh
    rw [Decoder.decodeChunks, scan_stop (hst _)] at fed
    cases fed
    have he := ((finish_v2 (d := opened maxBytes maxEvents (0 + input.length)) rfl rfl).mp hd).2.1
    cases he
  case isFalse =>
    split at fed
    · cases fed
      rw [decodeV1Capture_session hd] at hs
      cases hs
    · cases fed

theorem snapshot_ok (hm : d.mode = some .v2) (hs : d.session.isSome)
    (hh : d.header.isSome) (hl : 3 ≤ d.nextSequence) (hc : d.complete = true) :
    ∃ capture, d.snapshot false = .ok capture ∧ capture.session = d.session ∧
      capture.events = d.events := by
  obtain ⟨metadata, hme⟩ := isSome_iff_exists.mp hs
  obtain ⟨start, hse⟩ := isSome_iff_exists.mp hh
  unfold Decoder.snapshot
  rw [hm, hme, hse]
  dsimp only
  rw [if_neg (by omega), if_neg (by rw [hc]; exact fun hw => Bool.noConfusion hw.2)]
  exact ⟨_, rfl, rfl, rfl⟩

/-- What the decoder makes of a stream that its chunks use up. -/
theorem scan_opened {rawSize : ℕ} :
    scan (Decoder.round unicode) (opened maxBytes maxEvents rawSize) input =
      .ok (d, []) ↔ ∃ chunks, Frames Frame input chunks ∧
        chunks.foldlM (take unicode) (opened maxBytes maxEvents rawSize) = .ok d :=
  scan_frames (DecoderRules.shrinks_round unicode) (fun _ => rfl)
    (DecoderRules.round_frames unicode) _ _ _

/-- The receiver takes a stream that follows the rules, stays within its limits and shows
nothing unsafe. -/
theorem decodeWithin_of_stream (hs : Stream input chunks p) (hb : input.length ≤ maxBytes)
    (few : p.eventCount ≤ maxEvents)
    (hte : ∀ text ∈ chunks.flatMap chunkTexts, displaySafe unicode text) :
    ∃ capture, decodeWithin unicode maxBytes maxEvents input = .ok capture ∧
      capture.session.map SessionMetadata.sessionId = some p.sessionId ∧
      capture.events = streamEvents chunks 0 := by
  obtain ⟨hma, hlo⟩ := magic_of_stream hs
  have hl := hs.run.ended_late nofun hs.ended
  have hen := hs.ended
  obtain ⟨d, ht, rfl⟩ :=
    DecoderRules.Run.take (d := opened maxBytes maxEvents input.length) hs.run few hte
  obtain ⟨_, _, hk⟩ := DecoderRules.Run.of_take ht
  have hst : d.nextSequence ≠ 0 := fun hn => by
    change 3 ≤ d.nextSequence at hl
    omega
  obtain ⟨hse, hh⟩ := hk.opened (fun ho => absurd rfl ho) hst
  obtain ⟨capture, hsh, hm, he⟩ := snapshot_ok
    (d := { d with buffer := [], finished := true, complete := true }) hk.mode hse hh
    hl rfl
  refine ⟨capture, (decodeWithin_v2 hma hlo).mpr ⟨hb, d,
    scan_opened.mpr ⟨chunks, hs.frames, ht⟩, hen, hsh⟩, ?_, he.trans hk.events⟩
  obtain ⟨found, hfe⟩ := isSome_iff_exists.mp hse
  rw [hm]
  unfold progress
  rw [hfe]
  rfl

theorem stream_of_decodeWithin (hd : decodeWithin unicode maxBytes maxEvents input = .ok capture)
    (hse : capture.session.isSome) :
    ∃ chunks p, Stream input chunks p ∧ input.length ≤ maxBytes ∧ p.eventCount ≤ maxEvents ∧
      ∀ text ∈ chunks.flatMap chunkTexts, displaySafe unicode text := by
  obtain ⟨hm, hl⟩ := v2_of_session hd hse
  obtain ⟨hb, d, hs, he, _⟩ := (decodeWithin_v2 hm hl).mp hd
  obtain ⟨chunks, hf, ht⟩ := scan_opened.mp hs
  obtain ⟨run, hte, hk⟩ := DecoderRules.Run.of_take ht
  exact ⟨chunks, progress d, ⟨hf, run, he⟩, hb, hk.within (zero_le _), hte⟩

theorem readStream_of_stream {info : StreamReader.StreamInfo} (hs : Stream input chunks p)
    (ho : vpStreamV2CursorInit input = .ok info) :
    ∃ es, readStream input = .ok (info, es) ∧
      streamEvents chunks 0 = es.mapIdx traceEvent := by
  obtain ⟨es, hd, hsh⟩ := chunksEvents_streamEvents chunks
  refine ⟨es, ?_, (hsh 0).trans ?_⟩
  · unfold readStream
    rw [ho]
    rw [walk hs]
    dsimp only
    rw [hd]
    rfl
  · simp only [zero_add]

theorem snapshot_session (hs : d.snapshot false = .ok capture) : capture.session.isSome := by
  unfold Decoder.snapshot at hs
  split at hs
  · obtain ⟨_, hs⟩ := refuse_ok.mp hs
    obtain ⟨_, hs⟩ := refuse_ok.mp hs
    cases hs
    rfl
  · cases hs

theorem bounded_of_decodeWithin (hd : decodeWithin unicode maxBytes maxEvents input = .ok capture) :
    input.length ≤ maxBytes := by
  unfold decodeWithin incrementalTraceDecoder at hd
  split at hd
  · cases hd
  case h_2 d hc =>
  obtain ⟨_, hc⟩ := guard_ok.mp hc
  cases hc
  split at hd
  · cases hd
  case h_2 fed =>
  unfold Decoder.feed at fed
  rw [if_neg Bool.false_ne_true] at fed
  split at fed
  case isTrue he =>
    rw [he]
    exact zero_le _
  case isFalse =>
    obtain ⟨hb, _⟩ := refuse_ok.mp fed
    rw [zero_add] at hb
    exact not_lt.mp hb

theorem sessionId_lt {p' : Progress} (run : Run p chunks p')
    (hs : p.sessionId < 2 ^ 64) : p'.sessionId < 2 ^ 64 := by
  induction run with
  | nil p => exact hs
  | cons ht hr ih =>
    rename_i c chunks
    obtain ⟨q, ha, rfl⟩ := ht.adds
    refine ih ?_
    generalize c.type = type at ha
    cases ha with
    | session => exact number_lt _ 0 8
    | dictionary | events | thread | module | stats | finish => exact hs

/-- The receiver accepts a version 2 stream exactly when the profiler library does and the
stream is within the receiver's limits and has only texts that may be displayed; both then
report one session and the same events. A stream of `2 ^ 32` chunks, where the library's
sequence numbers would start again, has at least `2 ^ 37` bytes. -/
theorem readers_agree (unicode : UnicodeData) (maxBytes maxEvents : ℕ) (input : Bytes)
    (limit : maxBytes < 2 ^ 37 ∨ input.length < 2 ^ 37) :
    ((∃ capture, decodeWithin unicode maxBytes maxEvents input = .ok capture ∧
        capture.session.isSome) ↔
      ∃ info, vpStreamV2CursorInit input = .ok info ∧ input.length ≤ maxBytes ∧
        info.eventCount ≤ maxEvents ∧ ∀ text ∈ streamTexts input, displaySafe unicode text) ∧
    ∀ capture info, decodeWithin unicode maxBytes maxEvents input = .ok capture →
      vpStreamV2CursorInit input = .ok info →
        capture.session.map SessionMetadata.sessionId = some info.sessionId.toNat ∧
        ∃ events, readStream input = .ok (info, events) ∧
          capture.events = events.mapIdx traceEvent := by
  have hsh (hb : input.length ≤ maxBytes) : input.length < 2 ^ 37 := limit.elim hb.trans_lt id
  refine ⟨⟨?_, ?_⟩, fun capture info hd ho => ?_⟩
  · rintro ⟨capture, hd, session⟩
    obtain ⟨chunks, p, hs, hb, few, ht⟩ := stream_of_decodeWithin hd session
    refine ⟨_, (vpStreamV2CursorInit_ok (hsh hb)).mpr ⟨chunks, p, hs, rfl⟩, hb, few, ?_⟩
    rwa [streamTexts_eq hs]
  · rintro ⟨info, ho, hb, few, ht⟩
    obtain ⟨chunks, p, hs, rfl⟩ := (vpStreamV2CursorInit_ok (hsh hb)).mp ho
    rw [streamTexts_eq hs] at ht
    obtain ⟨capture, hd, session, _⟩ := decodeWithin_of_stream hs hb few ht
    refine ⟨capture, hd, ?_⟩
    rw [← isSome_map, session]
    rfl
  have hb := bounded_of_decodeWithin hd
  obtain ⟨_, _, hf, _⟩ := (vpStreamV2CursorInit_ok (hsh hb)).mp ho
  obtain ⟨hm, hl⟩ := magic_of_stream hf
  obtain ⟨_, _, _, _, hso⟩ := (decodeWithin_v2 hm hl).mp hd
  obtain ⟨chunks, p, hs, _, few, ht⟩ := stream_of_decodeWithin hd (snapshot_session hso)
  obtain ⟨same, ha, session, hse⟩ := decodeWithin_of_stream hs hb few ht
  cases hd.symm.trans ha
  have hie := (vpStreamV2CursorInit_ok (hsh hb)).mpr ⟨chunks, p, hs, rfl⟩
  have hsm := sessionId_lt hs.run (by decide)
  obtain ⟨events, hr, all⟩ := readStream_of_stream hs ho
  refine ⟨?_, events, hr, hse.trans all⟩
  cases ho.symm.trans hie
  rw [session, UInt64.toNat_ofNat_of_lt' hsm]

theorem readStream_info {s info : StreamReader.StreamInfo}
    {es : List Event} (hr : readStream input = .ok (s, es))
    (ho : vpStreamV2CursorInit input = .ok info) : s = info := by
  unfold readStream at hr
  rw [ho] at hr
  dsimp only at hr
  split at hr
  · cases hr
  case h_2 chunks hw =>
  cases hd : chunksEvents chunks with
  | error e =>
    rw [hd] at hr
    cases hr
  | ok all =>
    rw [hd] at hr
    cases hr
    rfl

/-- A stream with one event, as the writer of the profiler library writes it. -/
def oneEventStream : Bytes :=
  let writer : StreamWriter.Writer :=
    ⟨0, ⟨[], [], 0, 0, true⟩, 4096, 0, 0, 0, .ready, 0, 0, [], [], [], [], []⟩
  (writer.run (fun _ => true) [.beginV2 7 (some ⟨9, 0, 0, 0, none, none⟩),
    .drainV2 [⟨5, -3, 0, 1, 2, 3, 0⟩] 1 true, .closeV2 (.ok ⟨1, 0, 0⟩)]).2.sunk

def plainUnicode : UnicodeData := ⟨fun _ => .other, fun _ => .other⟩

/-- The stream with one event is within the default limits: the receiver takes it. -/
theorem readers_agree_oneEventStream :
    ∃ capture, decodeWithin plainUnicode defaultMaxBytes maxDecodedEvents oneEventStream =
      .ok capture ∧
      capture.session.map SessionMetadata.sessionId = some 9 ∧
      capture.events = [⟨0, 5, -3, 0, 1, 2, 3, 0⟩] := by
  obtain ⟨ha, hsa⟩ := readers_agree plainUnicode defaultMaxBytes maxDecodedEvents oneEventStream
    (.inl (by decide))
  have ran : ((readStream oneEventStream).toOption.map fun r =>
        (r.1.sessionId, r.1.eventCount, r.2)) =
          some (9, 1, [⟨5, -3, 0, 1, 2, 3, 0⟩]) ∧ oneEventStream.length ≤ defaultMaxBytes ∧
      ∀ text ∈ streamTexts oneEventStream, displaySafe plainUnicode text := by
    decide +kernel
  obtain ⟨hr, hsi, ht⟩ := ran
  cases ho : vpStreamV2CursorInit oneEventStream with
  | error e =>
    rw [readStream, ho] at hr
    cases hr
  | ok info =>
    cases hw : readStream oneEventStream with
    | error e =>
      rw [hw] at hr
      cases hr
    | ok r =>
      obtain ⟨s, drained⟩ := r
      have hse : s = info := readStream_info hw ho
      rw [hw, hse] at hr
      obtain ⟨sessionId, hre⟩ := Prod.mk.inj (Option.some.inj hr)
      obtain ⟨hec, events⟩ := Prod.mk.inj hre
      dsimp only at sessionId hec events
      have few : info.eventCount ≤ maxDecodedEvents := hec.trans_le (by decide)
      obtain ⟨capture, hd, _⟩ := ha.mpr ⟨info, ho, hsi, few, ht⟩
      obtain ⟨session, others, hag, hs⟩ := hsa capture info hd ho
      cases hw.symm.trans hag
      refine ⟨capture, hd, ?_, ?_⟩
      · rw [session, sessionId]
        rfl
      · rw [hs, events]
        rfl

section Received
open StreamWriter StreamRoundTrip NameWire

/-- The receiver reads from a stream that the library's writer has closed what was drained. -/
theorem received_events (unicode : UnicodeData) (maxBytes maxEvents : ℕ) {accepts : ℕ → Bool}
    {names : Dictionary} {capacity : ℕ} {ring stats : Except VpError RingStats}
    {calls : List WriterCall} {first w : Writer} (registered : Registered names)
    (created : vpStreamWriterInitV2 names capacity ring = .ok first)
    (closed : (first.run accepts calls).2.closeV2 accepts stats = (.ok (), w))
    (few : w.chunks.length < 2 ^ 32) (limit : maxBytes < 2 ^ 37)
    (bytes : w.sunk.length ≤ maxBytes) (events : w.drained.length ≤ maxEvents)
    (safe : ∀ text ∈ streamTexts w.sunk, displaySafe unicode text) :
    ∃ capture, decodeWithin unicode maxBytes maxEvents w.sunk = .ok capture ∧
      capture.events = w.drained.mapIdx traceEvent := by
  have inv := (Inv.init registered created : Inv accepts first).run calls
  obtain ⟨_, hc⟩ := inv.closed closed few
  obtain ⟨_, hr⟩ := hc.read few
  cases ho : vpStreamV2CursorInit w.sunk with
  | error e =>
    rw [readStream, ho] at hr
    cases hr
  | ok info =>
    obtain ⟨chunks, p, hs, -⟩ := (vpStreamV2CursorInit_ok (bytes.trans_lt limit)).mp ho
    obtain ⟨es, ha, all⟩ := readStream_of_stream hs ho
    cases hr.symm.trans ha
    rw [streamTexts_eq hs] at safe
    have hl := DecoderRules.Run.eventCount_eq hs.run 0
    rw [all, length_mapIdx] at hl
    have he := (hl.trans (zero_add _)).trans_le events
    obtain ⟨capture, hd, -, hse⟩ := decodeWithin_of_stream hs bytes he safe
    exact ⟨capture, hd, hse.trans all⟩

def oneClosed : Except VpError Unit × Writer :=
  (StreamRoundTrip.opened.run (fun _ => true) oneEvent).2.closeV2 (fun _ => true) (.ok ⟨1, 0, 0⟩)

theorem received_events_oneEvent : ∃ capture,
    decodeWithin plainUnicode defaultMaxBytes 1 oneClosed.2.sunk = .ok capture ∧
      capture.events = [traceEvent 0 zeroEvent] := by
  have ha : oneClosed.1 = .ok () := by decide +kernel
  have hc : oneClosed = (.ok (), oneClosed.2) := by rw [← ha]
  have hi : vpNameDictionaryInit 0 0 = .ok ⟨[], [], 0, 0, false⟩ := rfl
  have ho : vpStreamWriterInitV2 builtinOnly 4096 (.ok ⟨0, 0, 0⟩) = .ok StreamRoundTrip.opened :=
    rfl
  obtain ⟨capture, hd, he⟩ := received_events plainUnicode defaultMaxBytes 1 (.close (.init hi)) ho
    hc (by decide +kernel) (by decide) (by decide +kernel) (by decide +kernel) (by decide +kernel)
  exact ⟨capture, hd, he.trans (by decide +kernel)⟩

end Received

end VitaDebugger.ReaderAgreement
