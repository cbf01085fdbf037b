import VitaDebugger.StreamRules

/-! The receiver's decoder follows the rules of the trace stream, within its limits and its
rules on what may be displayed. -/

namespace VitaDebugger.DecoderRules
open List Nat StreamReader
open LittleEndian ScanLoop NameDictionary NameAgreement TraceDecoder StreamRules

/-- The texts of a chunk that the receiver displays. -/
def chunkTexts (chunk : ChunkView) : List Bytes :=
  match chunk.type with
  | .session =>
    [(chunk.payload.drop 40).take (number chunk.payload 32 2),
      (chunk.payload.drop 80).take (number chunk.payload 34 2)]
  | .dictionary => (wireViews chunk.payload).map NameView.name
  | _ => []

theorem crc32_eq (data : Bytes) : crc32 data = (vpStreamCrc32 data).toNat := by
  have hs : crcByte = ReflectedCrc.byteStep 0xedb88320 := rfl
  rw [crc32, ReflectedCrc.foldl_tableStep, vpStreamCrc32, hs]

theorem andNot_eq_zero (value mask : ℕ) : andNot value mask = 0 ↔ value &&& mask = value := by
  have low : value &&& mask ≤ value := and_le_left
  unfold andNot
  omega

/-- The progress that the decoder has made. -/
def progress (d : Decoder) : Progress where
  sequence := d.nextSequence
  offset := d.processedSize
  ended := d.endSeen
  sessionId := (d.session.map SessionMetadata.sessionId).getD 0
  threadKeys := d.threadKeys
  moduleKeys := d.moduleKeys
  eventCount := d.events.length
  counters := d.loss.map fun loss => (loss.eventsWritten, loss.bytesWritten)

theorem displaySafe_nil (unicode : UnicodeData) : displaySafe unicode [] = true := by
  rfl

theorem timerText_ok {unicode : UnicodeData} {rawText : Bytes} {l : String} {p : Prop}
    [Decidable p] (ha : ¬p → rawText = []) :
    (∃ text, Decoder.timerText unicode (decide p) rawText l = .ok text) ↔
      displaySafe unicode rawText := by
  unfold Decoder.timerText
  by_cases hs : p
  · rw [if_pos (decide_eq_true hs), ← decodeSafeText_ok]
    cases decodeSafeText unicode rawText l with
    | error e => simp [Except.map]
    | ok name => simp [Except.map]
  · rw [if_neg (by simpa using hs), ha hs]
    simp [displaySafe_nil]

theorem session_texts {payload : Bytes} (hs : SessionShape payload) :
    ((payload.drop 40).take 40).take (number payload 32 2) =
        (payload.drop 40).take (number payload 32 2) ∧
      ((payload.drop 80).take 16).take (number payload 34 2) =
        (payload.drop 80).take (number payload 34 2) := by
  rw [take_take, take_take, min_eq_left hs.source, min_eq_left hs.unit]
  exact ⟨rfl, rfl⟩

theorem drop_field (payload : Bytes) (s size l : ℕ) :
    ((payload.drop s).take size).drop l =
      (payload.drop (s + l)).take (size - l) := by
  rw [drop_take, drop_drop]

variable {type : ChunkType}

section Session
variable {unicode : UnicodeData} {d d' : Decoder} {payload : Bytes}

theorem decodeV2Session_ok : d.decodeV2Session unicode payload = .ok d' ↔
    SessionShape payload ∧ ∃ timerSource timerUnit,
      Decoder.timerText unicode (decide (number payload 28 4 &&& 4 ≠ 0))
        ((payload.drop 40).take (number payload 32 2)) "v2 timer source" = .ok timerSource ∧
      Decoder.timerText unicode (decide (number payload 28 4 &&& 8 ≠ 0))
        ((payload.drop 80).take (number payload 34 2)) "v2 timer unit" = .ok timerUnit ∧
      d' = { d with
        session := some
          { sessionId := number payload 0 8
            processId := if number payload 28 4 &&& 1 ≠ 0 then some (number payload 24 4) else none
            processIdentity :=
              if number payload 28 4 &&& 2 ≠ 0 then some (number payload 8 8) else none
            timerSource
            timerUnit }
        header := some ⟨2, 1, 1000000, number payload 16 8⟩ } := by
  unfold Decoder.decodeV2Session
  simp only [refuse_ok, drop_field, andNot_eq_zero, ne_eq, not_or, not_not, Bool.not_eq_true,
    decide_eq_decide]
  constructor
  · rintro ⟨hsi, ⟨named, flags, reserved⟩, ⟨hse, hu⟩, ⟨sourcePadding, hup⟩,
      ⟨sourceFlag, unitFlag⟩, ⟨processId, hi⟩, hr⟩
    have hs : SessionShape payload := ⟨hsi, named, flags, reserved, not_lt.mp hse,
      not_lt.mp hu, sourceFlag, unitFlag, fun none => by_contra fun some => processId ⟨none, some⟩,
      fun none => by_contra fun some => hi ⟨none, some⟩, sourcePadding, hup⟩
    rw [(session_texts hs).1, (session_texts hs).2] at hr
    split at hr
    · cases hr
    case h_2 timerSource shownSource =>
    split at hr
    · cases hr
    case h_2 timerUnit shownUnit =>
    exact ⟨hs, timerSource, timerUnit, shownSource, shownUnit, (Except.ok.inj hr).symm⟩
  rintro ⟨hs, timerSource, timerUnit, shownSource, shownUnit, rfl⟩
  refine ⟨hs.size, ⟨hs.named, hs.flags, hs.reserved⟩,
    ⟨not_lt.mpr hs.source, not_lt.mpr hs.unit⟩,
    ⟨hs.sourcePadding, hs.unitPadding⟩, ⟨hs.sourceFlag, hs.unitFlag⟩,
    ⟨fun hw => hw.2 (hs.processId hw.1),
      fun hw => hw.2 (hs.processIdentity hw.1)⟩, ?_⟩
  rw [(session_texts hs).1, (session_texts hs).2, shownSource]
  rw [shownUnit]

/-- The events of an EVENTS payload, numbered from `first` on. -/
def payloadEvents (payload : Bytes) (first : ℕ) : List TraceEvent :=
  (List.range (payload.length / 32)).map fun i => unpackEvent payload (i * 32) (first + i)

theorem decodeV2Events_ok : d.decodeV2Events payload = .ok d' ↔
    payload ≠ [] ∧ payload.length % 32 = 0 ∧ d.events.length + payload.length / 32 ≤ d.maxEvents ∧
      d' = { d with events := d.events ++ payloadEvents payload d.events.length } := by
  unfold Decoder.decodeV2Events
  rw [refuse_ok, not_or, not_not, and_assoc]
  rw [refuse_ok, not_lt, Except.ok.injEq, eq_comm (b := d')]
  rfl

theorem decodeV2Thread_ok : d.decodeV2Thread payload = .ok d' ↔
    ThreadShape payload ∧ (number payload 8 4, number payload 12 4) ∉ d.threadKeys ∧
      d.threadKeys.length ≠ 64 ∧
      d' = { d with
        threadKeys := d.threadKeys ++ [(number payload 8 4, number payload 12 4)]
        threads := d.threads ++ [⟨number payload 8 4, number payload 12 4,
          if number payload 20 4 &&& 1 ≠ 0 then some (number payload 0 8) else none,
          number payload 16 4, d.events.length⟩] } := by
  unfold Decoder.decodeV2Thread
  simp only [refuse_ok, andNot_eq_zero, ne_eq, not_or, not_not, decide_eq_decide]
  constructor
  · rintro ⟨hs, ⟨hn, hf, hr, hi⟩, hfr, hro, hd⟩
    exact ⟨⟨hs, hn, hf, hi, hr⟩, hfr, hro, (Except.ok.inj hd).symm⟩
  · rintro ⟨⟨hs, hn, hf, hi, hr⟩, hfr, hro, rfl⟩
    exact ⟨hs, ⟨hn, hf, hr, hi⟩, hfr, hro, rfl⟩

theorem decodeV2Module_ok : d.decodeV2Module payload = .ok d' ↔
    ModuleShape payload ∧ (number payload 0 4, number payload 4 4) ∉ d.moduleKeys ∧
      d.moduleKeys.length ≠ 64 ∧
      d' = { d with
        moduleKeys := d.moduleKeys ++ [(number payload 0 4, number payload 4 4)]
        modules := d.modules ++ [⟨number payload 0 4, number payload 4 4, number payload 8 4,
          number payload 12 4, number payload 16 4, decide (number payload 20 4 &&& 1 ≠ 0),
          decide (number payload 20 4 &&& 2 ≠ 0), decide (number payload 20 4 &&& 4 ≠ 0)⟩] } := by
  unfold Decoder.decodeV2Module
  simp only [refuse_ok, andNot_eq_zero, ne_eq, not_or, not_not, not_le]
  constructor
  · rintro ⟨hs, ⟨hn, hra, hf, hc, hr⟩, hfr, hro, hd⟩
    exact ⟨⟨hs, hn, hra, hf, hc, hr⟩, hfr, hro, (Except.ok.inj hd).symm⟩
  · rintro ⟨⟨hs, hn, hra, hf, hc, hr⟩, hfr, hro, rfl⟩
    exact ⟨hs, ⟨hn, hra, hf, hc, hr⟩, hfr, hro, rfl⟩

/-- The counters of a STATS or END payload. -/
def lossCounters (payload : Bytes) : LossCounters :=
  ⟨number payload 0 4, number payload 4 4, number payload 8 4, number payload 12 4,
    number payload 16 8, number payload 24 8⟩

theorem regressed_false {loss : LossCounters} {b : Option LossCounters} :
    Decoder.regressed loss b = false ↔ ∀ l, b = some l →
      l.eventsWritten ≤ loss.eventsWritten ∧ l.bytesWritten ≤ loss.bytesWritten := by
  cases b with
  | none => simp [Decoder.regressed]
  | some l => simp [Decoder.regressed]

theorem decodeV2Counters_ok {ct : ℕ} : d.decodeV2Counters ct payload = .ok d' ↔
    Counts (progress d) payload ∧
      (ct = 7 → number payload 16 8 = d.events.length ∧ number payload 12 4 = 0 ∧
        number payload 24 8 = d.currentChunkEnd) ∧
      d' = { d with
        loss := some (lossCounters payload)
        endSeen := if ct = 7 then true else d.endSeen } := by
  have hb : (∀ es bs, (progress d).counters = some (es, bs) →
      es ≤ number payload 16 8 ∧ bs ≤ number payload 24 8) ↔
      ∀ l, d.loss = some l → l.eventsWritten ≤ number payload 16 8 ∧
        l.bytesWritten ≤ number payload 24 8 := by
    unfold progress
    cases d.loss with
    | none => simp
    | some l => simp
  unfold Decoder.decodeV2Counters Decoder.decodeV2Stats
  by_cases hs : payload.length = 32
  · rw [if_neg (not_not.mpr hs)]
    rw [refuse_ok, refuse_ok, Bool.not_eq_true, regressed_false, not_lt]
    constructor
    · rintro ⟨hg, hp, hr⟩
      have hc : Counts (progress d) payload := ⟨hs, hp, hb.mpr hg⟩
      by_cases hf : ct = 7
      · rw [if_pos hf, refuse_ok, refuse_ok, refuse_ok, not_not, not_not, not_not] at hr
        obtain ⟨all, hcl, ht, hd⟩ := hr
        refine ⟨hc, fun _ => ⟨all, hcl, ht⟩, ?_⟩
        rw [if_pos hf]
        exact (Except.ok.inj hd).symm
      rw [if_neg hf] at hr
      refine ⟨hc, fun ho => absurd ho hf, ?_⟩
      rw [if_neg hf]
      exact (Except.ok.inj hr).symm
    rintro ⟨hc, he, rfl⟩
    refine ⟨hb.mp hc.grown, hc.present, ?_⟩
    by_cases hf : ct = 7
    · obtain ⟨all, hcl, ht⟩ := he hf
      rw [if_pos hf, if_neg (not_not.mpr all), if_neg (not_not.mpr hcl),
        if_neg (not_not.mpr ht), if_pos hf]
      rfl
    · rw [if_neg hf, if_neg hf]
      rfl
  · rw [if_pos hs]
    exact iff_of_false nofun fun hco => hs hco.1.size

/-- What the decoder does with a chunk of each type at its place. -/
def decodes (unicode : UnicodeData) (d : Decoder) (payload : Bytes) (d' : Decoder) :
    ChunkType → Prop
  | .session => d.nextSequence = 0 ∧ d.decodeV2Session unicode payload = .ok d'
  | .dictionary => d.nextSequence = 1 ∧ ∃ names,
      decodeDictionary unicode payload = .ok (names, payload.length) ∧
        d' = { d with names, dictionarySize := payload.length }
  | .events => 2 ≤ d.nextSequence ∧ d.decodeV2Events payload = .ok d'
  | .thread => 2 ≤ d.nextSequence ∧ d.decodeV2Thread payload = .ok d'
  | .module => 2 ≤ d.nextSequence ∧ d.decodeV2Module payload = .ok d'
  | .stats => 2 ≤ d.nextSequence ∧ d.decodeV2Counters 6 payload = .ok d'
  | .endStream => 2 ≤ d.nextSequence ∧ d.decodeV2Counters 7 payload = .ok d'

theorem decodeV2Chunk_ok : d.decodeV2Chunk unicode type.code.toNat payload = .ok d' ↔
      decodes unicode d payload d' type := by
  unfold Decoder.decodeV2Chunk
  by_cases hf : d.nextSequence = 0
  · cases type <;> simp [decodes, hf, refuse, ChunkType.code]
  by_cases hs : d.nextSequence = 1
  · rw [if_neg hf, if_pos hs]
    cases type with
    | dictionary =>
      rw [if_neg (by decide)]
      constructor
      · intro hd
        split at hd
        · cases hd
        case h_2 ns size hb =>
        obtain ⟨hsa, hdo⟩ := refuse_ok.mp hd
        rw [not_not.mp hsa] at hb hdo
        exact ⟨hs, ns, hb, (Except.ok.inj hdo).symm⟩
      · rintro ⟨_, ns, hb, rfl⟩
        rw [hb]
        exact if_neg (not_not.mpr rfl)
    | session | events | thread | module | stats | endStream =>
      simp [decodes, hs, refuse, ChunkType.code]
  · have hl : 2 ≤ d.nextSequence := by omega
    cases type <;> simp [decodes, hf, hs, hl, refuse, ChunkType.code]

theorem timerTexts_ok (hs : SessionShape payload) :
    ((∃ timerSource, Decoder.timerText unicode (decide (number payload 28 4 &&& 4 ≠ 0))
        ((payload.drop 40).take (number payload 32 2)) "v2 timer source" = .ok timerSource) ↔
      displaySafe unicode ((payload.drop 40).take (number payload 32 2))) ∧
    ((∃ timerUnit, Decoder.timerText unicode (decide (number payload 28 4 &&& 8 ≠ 0))
        ((payload.drop 80).take (number payload 34 2)) "v2 timer unit" = .ok timerUnit) ↔
      displaySafe unicode ((payload.drop 80).take (number payload 34 2))) := by
  constructor
  · refine timerText_ok fun ha => ?_
    rw [not_not.mp (mt hs.sourceFlag.mpr ha), take_zero]
  · refine timerText_ok fun ha => ?_
    rw [not_not.mp (mt hs.unitFlag.mpr ha), take_zero]

theorem length_payloadEvents (f : ℕ) : (payloadEvents payload f).length = payload.length / 32 := by
  rw [payloadEvents, length_map, length_range]

theorem progress_events : progress { d with
      events := d.events ++ payloadEvents payload d.events.length } =
    { progress d with eventCount := (progress d).eventCount + payload.length / 32 } := by
  unfold progress
  rw [length_append, length_payloadEvents]

theorem Adds.of_decodes {sequence : UInt32}
    (current : d.currentChunkEnd = d.processedSize + (32 + payload.length))
    (decoded : decodes unicode d payload d' type) : Adds (progress d) payload type (progress d') ∧
      ∀ text ∈ chunkTexts ⟨type, sequence, payload⟩, displaySafe unicode text := by
  cases type with
  | session =>
    obtain ⟨first, session⟩ := decoded
    obtain ⟨shape, timerSource, timerUnit, source, unit, rfl⟩ := decodeV2Session_ok.mp session
    have safeSource := (timerTexts_ok shape).1.mp ⟨timerSource, source⟩
    have safeUnit := (timerTexts_ok shape).2.mp ⟨timerUnit, unit⟩
    refine ⟨.session first shape, forall_mem_cons.mpr ⟨safeSource, ?_⟩⟩
    exact forall_mem_singleton.mpr safeUnit
  | dictionary =>
    obtain ⟨second, names, block, rfl⟩ := decoded
    obtain ⟨valid, safe⟩ :=
      (decodeDictionary_agree unicode payload payload.length).mp ⟨names, block⟩
    exact ⟨.dictionary second valid, forall_mem_map.mpr safe⟩
  | events =>
    obtain ⟨later, events⟩ := decoded
    obtain ⟨some, whole, limit, rfl⟩ := decodeV2Events_ok.mp events
    rw [progress_events]
    exact ⟨.events later some whole, nofun⟩
  | thread =>
    obtain ⟨later, thread⟩ := decoded
    obtain ⟨shape, fresh, room, rfl⟩ := decodeV2Thread_ok.mp thread
    exact ⟨.thread later shape fresh room, nofun⟩
  | module =>
    obtain ⟨later, module⟩ := decoded
    obtain ⟨shape, fresh, room, rfl⟩ := decodeV2Module_ok.mp module
    exact ⟨.module later shape fresh room, nofun⟩
  | stats =>
    obtain ⟨later, counters⟩ := decoded
    obtain ⟨counts, _, rfl⟩ := decodeV2Counters_ok.mp counters
    exact ⟨.stats later counts, nofun⟩
  | endStream =>
    obtain ⟨later, counters⟩ := decoded
    obtain ⟨counts, ending, rfl⟩ := decodeV2Counters_ok.mp counters
    obtain ⟨all, clean, total⟩ := ending rfl
    exact ⟨.finish later counts all clean (total.trans current), nofun⟩

theorem Adds.decodes {sequence : UInt32} {q : Progress}
    (current : d.currentChunkEnd = d.processedSize + (32 + payload.length))
    (adds : Adds (progress d) payload type q) (limit : q.eventCount ≤ d.maxEvents)
    (texts : ∀ text ∈ chunkTexts ⟨type, sequence, payload⟩, displaySafe unicode text) :
    ∃ d', decodes unicode d payload d' type ∧ progress d' = q := by
  cases adds with
  | session hfi hs =>
    obtain ⟨hss, hre⟩ := forall_mem_cons.mp texts
    have safeUnit := forall_mem_singleton.mp hre
    obtain ⟨timerSource, source⟩ := (timerTexts_ok hs).1.mpr hss
    obtain ⟨timerUnit, unit⟩ := (timerTexts_ok hs).2.mpr safeUnit
    exact ⟨_, ⟨hfi, decodeV2Session_ok.mpr ⟨hs, timerSource, timerUnit, source, unit, rfl⟩⟩, rfl⟩
  | dictionary hse hv =>
    obtain ⟨names, block⟩ := (decodeDictionary_agree unicode payload payload.length).mpr
      ⟨hv, forall_mem_map.mp texts⟩
    exact ⟨_, ⟨hse, names, block, rfl⟩, rfl⟩
  | events hl hsm whole =>
    exact ⟨_, ⟨hl, decodeV2Events_ok.mpr ⟨hsm, whole, limit, rfl⟩⟩, progress_events⟩
  | thread hl hs fresh room =>
    exact ⟨_, ⟨hl, decodeV2Thread_ok.mpr ⟨hs, fresh, room, rfl⟩⟩, rfl⟩
  | module hl hs fresh room =>
    exact ⟨_, ⟨hl, decodeV2Module_ok.mpr ⟨hs, fresh, room, rfl⟩⟩, rfl⟩
  | stats hl hc =>
    exact ⟨_, ⟨hl, decodeV2Counters_ok.mpr ⟨hc, nofun, rfl⟩⟩, rfl⟩
  | finish hl hc all clean hto =>
    exact ⟨_, ⟨hl, decodeV2Counters_ok.mpr
      ⟨hc, fun _ => ⟨all, clean, hto.trans current.symm⟩, rfl⟩⟩, rfl⟩

/-- The events of a chunk, numbered from `first` on. -/
def chunkTraceEvents (type : ChunkType) (payload : Bytes) (first : ℕ) : List TraceEvent :=
  if type = .events then payloadEvents payload first else []

/-- What a chunk leaves as it was, and the events that it adds. -/
structure Kept (d d' : Decoder) (type : ChunkType) (payload : Bytes) : Prop where
  limit : d'.maxEvents = d.maxEvents
  mode : d'.mode = d.mode
  finished : d'.finished = d.finished
  events : d'.events = d.events ++ chunkTraceEvents type payload d.events.length
  within : d.events.length ≤ d.maxEvents → d'.events.length ≤ d.maxEvents
  opened : (d.nextSequence ≠ 0 → d.session.isSome ∧ d.header.isSome) →
    d'.session.isSome ∧ d'.header.isSome

theorem decodes_kept (decoded : decodes unicode d payload d' type) :
    d'.currentChunkEnd = d.currentChunkEnd ∧ Kept d d' type payload := by
  cases type with
  | session =>
    obtain ⟨_, session⟩ := decoded
    obtain ⟨_, _, _, _, _, rfl⟩ := decodeV2Session_ok.mp session
    exact ⟨rfl, rfl, rfl, rfl, (append_nil _).symm, id, fun _ => ⟨rfl, rfl⟩⟩
  | dictionary =>
    obtain ⟨second, names, _, rfl⟩ := decoded
    exact ⟨rfl, rfl, rfl, rfl, (append_nil _).symm, id, fun opened => opened (by omega)⟩
  | events =>
    obtain ⟨later, events⟩ := decoded
    obtain ⟨_, _, limit, rfl⟩ := decodeV2Events_ok.mp events
    refine ⟨rfl, rfl, rfl, rfl, rfl, fun _ => ?_, fun opened => opened (by omega)⟩
    rwa [length_append, length_payloadEvents]
  | thread =>
    obtain ⟨later, thread⟩ := decoded
    obtain ⟨_, _, _, rfl⟩ := decodeV2Thread_ok.mp thread
    exact ⟨rfl, rfl, rfl, rfl, (append_nil _).symm, id, fun opened => opened (by omega)⟩
  | module =>
    obtain ⟨later, module⟩ := decoded
    obtain ⟨_, _, _, rfl⟩ := decodeV2Module_ok.mp module
    exact ⟨rfl, rfl, rfl, rfl, (append_nil _).symm, id, fun opened => opened (by omega)⟩
  | stats | endStream =>
    obtain ⟨later, counters⟩ := decoded
    obtain ⟨_, _, rfl⟩ := decodeV2Counters_ok.mp counters
    exact ⟨rfl, rfl, rfl, rfl, (append_nil _).symm, id, fun opened => opened (by omega)⟩

end Session

/-- The decoder takes a chunk that has arrived whole. -/
def take (unicode : UnicodeData) (d : Decoder) (chunk : ChunkView) : Except TraceError Decoder :=
  d.takeChunk unicode chunk.type.code.toNat chunk.sequence.toNat chunk.payload

variable {p' : Progress} {chunks : List ChunkView}

section Taking
variable {u : UnicodeData} {d d' : Decoder} {chunk : ChunkView}

/-- The decoder with the end of the chunk that it is about to decode. -/
def reach (d : Decoder) (chunk : ChunkView) : Decoder :=
  { d with currentChunkEnd := d.processedSize + (32 + chunk.payload.length) }

theorem take_ok : take u d chunk = .ok d' ↔
    chunk.sequence.toNat = d.nextSequence ∧ d.endSeen = false ∧
    ∃ d₁, decodes u (reach d chunk) chunk.payload d₁ chunk.type ∧
      d' =
        { d₁ with processedSize := d₁.currentChunkEnd, nextSequence := d₁.nextSequence + 1 } := by
  unfold take Decoder.takeChunk
  dsimp only
  rw [refuse_ok, refuse_ok, not_not, Bool.not_eq_true]
  refine and_congr_right fun _ => and_congr_right fun _ => ?_
  constructor
  · intro ht
    split at ht
    · cases ht
    case h_2 d₁ hd =>
    exact ⟨d₁, decodeV2Chunk_ok.mp hd, (Except.ok.inj ht).symm⟩
  rintro ⟨d₁, hd, rfl⟩
  have hw := decodeV2Chunk_ok.mpr hd
  unfold reach at hw
  rw [hw]

theorem progress_moved {size : ℕ} (hc : d.currentChunkEnd = d.processedSize + size) :
    progress { d with processedSize := d.currentChunkEnd, nextSequence := d.nextSequence + 1 } =
      (progress d).advance size := by
  rw [hc]
  rfl

theorem Takes.of_take (ht : take u d chunk = .ok d') :
    Takes (progress d) chunk (progress d') ∧ (∀ text ∈ chunkTexts chunk, displaySafe u text) ∧
      Kept d d' chunk.type chunk.payload := by
  obtain ⟨hs, unfinished, d₁, decoded, rfl⟩ := take_ok.mp ht
  obtain ⟨adds, texts⟩ := Adds.of_decodes rfl decoded
  obtain ⟨hc, hk⟩ := decodes_kept decoded
  refine ⟨⟨hs, unfinished, progress d₁, adds, ?_⟩, texts, ?_⟩
  · exact progress_moved (hc.trans (congrArg (· + _) adds.place.2.symm))
  · exact { hk with }

theorem Takes.take (takes : Takes (progress d) chunk p') (limit : p'.eventCount ≤ d.maxEvents)
    (texts : ∀ text ∈ chunkTexts chunk, displaySafe u text) :
    ∃ d', take u d chunk = .ok d' ∧ progress d' = p' := by
  obtain ⟨q, adds, rfl⟩ := takes.adds
  have place := adds.place.2
  obtain ⟨d₁, decoded, rfl⟩ := Adds.decodes (d := reach d chunk) rfl adds limit texts
  have current := (decodes_kept decoded).1
  exact ⟨_, take_ok.mpr ⟨takes.sequence, takes.unfinished, d₁, decoded, rfl⟩,
    progress_moved (current.trans (congrArg (· + _) place.symm))⟩

/-- The events of the chunks of a stream, numbered from `first` on. -/
def streamEvents : List ChunkView → ℕ → List TraceEvent
  | [], _ => []
  | chunk :: chunks, first =>
    let events := chunkTraceEvents chunk.type chunk.payload first
    events ++ streamEvents chunks (first + events.length)

/-- What a run of chunks leaves as it was, and the events that it adds. -/
structure KeptAll (d d' : Decoder) (chunks : List ChunkView) : Prop where
  limit : d'.maxEvents = d.maxEvents
  mode : d'.mode = d.mode
  finished : d'.finished = d.finished
  events : d'.events = d.events ++ streamEvents chunks d.events.length
  within : d.events.length ≤ d.maxEvents → d'.events.length ≤ d.maxEvents
  opened : (d.nextSequence ≠ 0 → d.session.isSome ∧ d.header.isSome) →
    d'.nextSequence ≠ 0 → d'.session.isSome ∧ d'.header.isSome

theorem Run.of_take (ht : chunks.foldlM (take u) d = .ok d') :
    Run (progress d) chunks (progress d') ∧
      (∀ text ∈ chunks.flatMap chunkTexts, displaySafe u text) ∧ KeptAll d d' chunks := by
  induction chunks generalizing d with
  | nil =>
    cases ht
    exact ⟨.nil _, nofun, rfl, rfl, rfl, (append_nil _).symm, id, id⟩
  | cons chunk chunks ih =>
    rw [foldlM_cons] at ht
    cases hf : take u d chunk with
    | error e =>
      rw [hf] at ht
      cases ht
    | ok next =>
      rw [hf] at ht
      obtain ⟨hta, hte, hk⟩ := Takes.of_take hf
      obtain ⟨run, hot, hr⟩ := ih ht
      refine ⟨.cons hta run, ?_, hr.limit.trans hk.limit, hr.mode.trans hk.mode,
        hr.finished.trans hk.finished, ?_, fun hw => ?_, fun ho hs => ?_⟩
      · exact forall_mem_append.mpr ⟨hte, hot⟩
      · rw [hr.events, hk.events, streamEvents, length_append, append_assoc]
      · have hb := hr.within
        rw [hk.limit] at hb
        exact hb (hk.within hw)
      · exact hr.opened (fun _ => hk.opened ho) hs

theorem Run.eventCount_eq {p : Progress} (run : Run p chunks p') (f : ℕ) :
    p'.eventCount = p.eventCount + (streamEvents chunks f).length := by
  induction run generalizing f with
  | nil => rfl
  | cons ht hr ih =>
    rename_i c chunks
    obtain ⟨q, ha, rfl⟩ := ht.adds
    rw [streamEvents, length_append, ih, ← add_assoc]
    congr 1
    unfold chunkTraceEvents
    generalize c.type = type at ha
    cases ha with
    | events => simp [payloadEvents, Progress.advance]
    | session | dictionary | thread | module | stats | finish => rfl

theorem Run.take (run : Run (progress d) chunks p') (hl : p'.eventCount ≤ d.maxEvents)
    (hte : ∀ text ∈ chunks.flatMap chunkTexts, displaySafe u text) :
    ∃ d', chunks.foldlM (take u) d = .ok d' ∧ progress d' = p' := by
  induction chunks generalizing d with
  | nil =>
    cases run
    exact ⟨d, rfl, rfl⟩
  | cons chunk chunks ih =>
    obtain ⟨hh, ho⟩ := forall_mem_append.mp hte
    cases run with
    | cons hta hr =>
      have hb := (le.intro (Run.eventCount_eq hr 0).symm).trans hl
      obtain ⟨next, ht, rfl⟩ := Takes.take hta hb hh
      have hs := (Takes.of_take ht).2.2.limit
      obtain ⟨d', all, hd⟩ := ih hr (hs ▸ hl) ho
      refine ⟨d', ?_, hd⟩
      rw [foldlM_cons, ht]
      exact all

theorem code_range (code : ℕ) : (1 ≤ code ∧ code < 8) ↔
    ∃ type : ChunkType, type.code.toNat = code := by
  constructor
  · intro hr
    have hk : ∀ n < 8, 1 ≤ n → ∃ type ∈ [ChunkType.session, .dictionary, .events,
        .thread, .module, .stats, .endStream], type.code.toNat = n := by
      decide
    obtain ⟨type, _, hc⟩ := hk code hr.2 hr.1
    exact ⟨type, hc⟩
  · rintro ⟨type, rfl⟩
    cases type <;> decide

theorem length_payload {i : Bytes} (hs : ChunkShape i) :
    ((i.drop 32).take (number i 12 4)).length = number i 12 4 := by
  have ha := hs.whole
  rw [length_take, length_drop]
  omega

theorem round_frames (u : UnicodeData) (d : Decoder) (i : Bytes) (d' : Decoder)
    (rest : Bytes) : Decoder.round u d i = .ok (some (d', rest)) ↔
      ∃ chunk, Frame i chunk rest ∧ take u d chunk = .ok d' := by
  unfold Frame Decoder.round
  constructor
  · intro hm
    split at hm
    · cases hm
    rw [refuse_ok, refuse_ok, refuse_ok, refuse_ok, refuse_ok, refuse_ok, not_not, not_not,
      not_not, not_not, not_or, not_not, not_not] at hm
    obtain ⟨hma, hv, hhs, hra, ⟨hf, hr⟩, hsm, hm⟩ := hm
    split at hm
    · cases hm
    case isFalse hw =>
    obtain ⟨hch, hm⟩ := refuse_ok.mp hm
    rw [crc32_eq, not_not] at hch
    obtain ⟨type, hc⟩ := (code_range _).mp hra
    have ha := not_lt.mp hw
    have hs : ChunkShape i := ⟨hma, hv, hhs, hf, hr, not_lt.mp hsm, ha, hch⟩
    refine ⟨⟨type, readU32Le i 16, (i.drop 32).take (number i 12 4)⟩,
      ⟨decodeChunk_ok.mpr ⟨hs, hc, toNat_readU32Le .., rfl⟩, ?_⟩, ?_⟩
    · split at hm
      · cases hm
      · cases hm
        rw [length_payload hs]
    split at hm
    · cases hm
    case h_2 ht =>
    cases hm
    unfold take
    rw [hc, toNat_readU32Le]
    exact ht
  rintro ⟨chunk, ⟨hd, rfl⟩, ht⟩
  obtain ⟨hs, hc, hse, hp⟩ := decodeChunk_ok.mp hd
  have ha := hs.whole
  unfold take at ht
  rw [if_neg (by change ¬_ < 32; omega)]
  rw [refuse_ok, refuse_ok, refuse_ok, refuse_ok, refuse_ok, refuse_ok, not_not, not_not,
    not_not, not_not, not_or, not_not, not_not]
  refine ⟨hs.magic, hs.version, hs.headerSize, (code_range _).mpr ⟨_, hc⟩,
    ⟨hs.flags, hs.reserved⟩, not_lt.mpr hs.small, ?_⟩
  rw [if_neg (not_lt.mpr hs.whole), refuse_ok, crc32_eq, not_not]
  refine ⟨hs.checksum, ?_⟩
  rw [hc, hse, hp] at ht
  rw [ht, hp, length_payload hs]

theorem shrinks_round (u : UnicodeData) : Shrinks (Decoder.round u) := by
  intro d i d' rest hm
  obtain ⟨chunk, ⟨hd, rfl⟩, _⟩ := (round_frames u d i d' rest).mp hm
  obtain ⟨hs, _⟩ := decodeChunk_ok.mp hd
  have ha := hs.whole
  rw [length_drop]
  omega

end Taking

end VitaDebugger.DecoderRules
