import VitaDebugger.NameAgreement
import VitaDebugger.StreamChunks

/-! The rules of a version 2 trace stream, apart from any reader: what each chunk may say at
its place, over the numbers that its bytes hold. The reader of the profiler library follows
them. -/

namespace VitaDebugger.StreamRules
open List Nat
open LittleEndian ScanLoop NameDictionary NameAgreement StreamReader StreamChunks

structure SessionShape (payload : Bytes) : Prop where
  size : payload.length = 96
  named : number payload 0 8 ≠ 0
  flags : number payload 28 4 &&& 15 = number payload 28 4
  reserved : number payload 36 4 = 0
  source : number payload 32 2 ≤ 40
  unit : number payload 34 2 ≤ 16
  sourceFlag : number payload 28 4 &&& 4 ≠ 0 ↔ number payload 32 2 ≠ 0
  unitFlag : number payload 28 4 &&& 8 ≠ 0 ↔ number payload 34 2 ≠ 0
  processId : number payload 28 4 &&& 1 = 0 → number payload 24 4 = 0
  processIdentity : number payload 28 4 &&& 2 = 0 → number payload 8 8 = 0
  sourcePadding : ((payload.drop (40 + number payload 32 2)).take
    (40 - number payload 32 2)).any (· ≠ 0) = false
  unitPadding : ((payload.drop (80 + number payload 34 2)).take
    (16 - number payload 34 2)).any (· ≠ 0) = false

structure ThreadShape (payload : Bytes) : Prop where
  size : payload.length = 32
  named : number payload 8 4 ≠ 0
  flags : number payload 20 4 &&& 1 = number payload 20 4
  identity : number payload 20 4 &&& 1 ≠ 0 ↔ number payload 0 8 ≠ 0
  reserved : number payload 24 8 = 0

structure ModuleShape (payload : Bytes) : Prop where
  size : payload.length = 32
  named : number payload 0 4 ≠ 0
  range : number payload 8 4 < number payload 12 4
  flags : number payload 20 4 &&& 7 = number payload 20 4
  code : number payload 20 4 &&& 6 ≠ 0
  reserved : number payload 24 8 = 0

/-- What is known of a stream after some of its chunks. -/
@[ext]
structure Progress where
  sequence : ℕ
  offset : ℕ
  ended : Bool
  sessionId : ℕ
  threadKeys : List (ℕ × ℕ)
  moduleKeys : List (ℕ × ℕ)
  eventCount : ℕ
  counters : Option (ℕ × ℕ)

/-- The counters of a payload are possible after those of the chunk before. -/
structure Counts (p : Progress) (payload : Bytes) : Prop where
  size : payload.length = 32
  present : number payload 16 8 ≤ p.eventCount
  grown : ∀ events bytes, p.counters = some (events, bytes) →
    events ≤ number payload 16 8 ∧ bytes ≤ number payload 24 8

def Progress.counted (p : Progress) (payload : Bytes) : Progress :=
  { p with counters := some (number payload 16 8, number payload 24 8) }

/-- What a chunk adds, apart from its place. -/
inductive Adds (p : Progress) (payload : Bytes) : ChunkType → Progress → Prop
  | session (first : p.sequence = 0) (shape : SessionShape payload) :
      Adds p payload .session { p with sessionId := number payload 0 8 }
  | dictionary (second : p.sequence = 1)
      (valid : vpNameWireValidateLe payload = .ok payload.length) : Adds p payload .dictionary p
  | events (later : 2 ≤ p.sequence) (some : payload ≠ []) (whole : payload.length % 32 = 0) :
      Adds p payload .events { p with eventCount := p.eventCount + payload.length / 32 }
  | thread (later : 2 ≤ p.sequence) (shape : ThreadShape payload)
      (fresh : (number payload 8 4, number payload 12 4) ∉ p.threadKeys)
      (room : p.threadKeys.length ≠ 64) :
      Adds p payload .thread { p with
        threadKeys := p.threadKeys ++ [(number payload 8 4, number payload 12 4)] }
  | module (later : 2 ≤ p.sequence) (shape : ModuleShape payload)
      (fresh : (number payload 0 4, number payload 4 4) ∉ p.moduleKeys)
      (room : p.moduleKeys.length ≠ 64) :
      Adds p payload .module { p with
        moduleKeys := p.moduleKeys ++ [(number payload 0 4, number payload 4 4)] }
  | stats (later : 2 ≤ p.sequence) (counts : Counts p payload) :
      Adds p payload .stats (p.counted payload)
  | finish (later : 2 ≤ p.sequence) (counts : Counts p payload)
      (all : number payload 16 8 = p.eventCount) (clean : number payload 12 4 = 0)
      (total : number payload 24 8 = p.offset + (32 + payload.length)) :
      Adds p payload .endStream { p.counted payload with ended := true }

def Progress.advance (p : Progress) (size : ℕ) : Progress :=
  { p with sequence := p.sequence + 1, offset := p.offset + size }

/-- A chunk at its place in the stream. -/
structure Takes (p : Progress) (chunk : ChunkView) (p' : Progress) : Prop where
  sequence : chunk.sequence.toNat = p.sequence
  unfinished : p.ended = false
  adds : ∃ q, Adds p chunk.payload chunk.type q ∧ p' = q.advance (32 + chunk.payload.length)

/-- The chunks of a stream one after the other. -/
inductive Run : Progress → List ChunkView → Progress → Prop
  | nil (p : Progress) : Run p [] p
  | cons {p p' p'' : Progress} {chunk : ChunkView} {chunks : List ChunkView}
      (takes : Takes p chunk p') (rest : Run p' chunks p'') : Run p (chunk :: chunks) p''

def Progress.start : Progress := ⟨0, 0, false, 0, [], [], 0, none⟩

variable {payload : Bytes} {p q : Progress} {type : ChunkType}

theorem Adds.place (ha : Adds p payload type q) :
    q.sequence = p.sequence ∧ q.offset = p.offset := by
  cases ha <;> exact ⟨rfl, rfl⟩

variable {p' : Progress}

theorem Takes.sequence_succ {chunk : ChunkView} (ht : Takes p chunk p') :
    p'.sequence = p.sequence + 1 := by
  obtain ⟨q, ha, rfl⟩ := ht.adds
  rw [Progress.advance, ha.place.1]

theorem Adds.ended_late (ha : Adds p payload type q) (he : q.ended = true) :
    p.ended = true ∨ 2 ≤ p.sequence := by
  cases ha with
  | session | dictionary => exact .inl he
  | events hl | thread hl | module hl | stats hl | finish hl => exact .inr hl

variable {chunks : List ChunkView}

theorem Run.length_le (run : Run p chunks p') :
    p'.sequence = p.sequence + chunks.length ∧ (chunks ≠ [] → p'.sequence ≤ 2 ^ 32) := by
  induction run with
  | nil p => exact ⟨rfl, fun hno => absurd rfl hno⟩
  | cons ht hr ih =>
    rename_i p p' p'' ch chunks
    have hn := ht.sequence_succ
    have hnu := ht.sequence
    have hb := ch.sequence.toNat_lt
    refine ⟨by rw [ih.1, length_cons, hn]; omega, fun _ => ?_⟩
    cases chunks with
    | nil =>
      rw [ih.1, length_nil]
      omega
    | cons other others => exact ih.2 (cons_ne_nil _ _)

theorem Run.ended_late (run : Run p chunks p') (hb : p.ended = true → 3 ≤ p.sequence) :
    p'.ended = true → 3 ≤ p'.sequence := by
  induction run with
  | nil p => exact hb
  | cons ht hr ih =>
    apply ih
    intro he
    obtain ⟨q, had, rfl⟩ := ht.adds
    have hp := had.place.1
    change 3 ≤ q.sequence + 1
    rcases had.ended_late he with ha | hl
    · rw [ht.unfinished] at ha
      cases ha
    · omega

theorem and_eq_zero (v mask : UInt32) : v &&& mask = 0 ↔ v.toNat &&& mask.toNat = 0 := by
  rw [← UInt32.toNat_inj, UInt32.toNat_and]
  rfl

theorem and_not_eq_zero (v m : UInt32) : v &&& ~~~m = 0 ↔ v.toNat &&& m.toNat = v.toNat := by
  have hs : (v &&& ~~~m) = v ^^^ (v &&& m) := by
    apply UInt32.toBitVec_inj.mp
    rw [UInt32.toBitVec_and, UInt32.toBitVec_not, UInt32.toBitVec_xor, UInt32.toBitVec_and]
    ext i
    simp only [BitVec.getElem_and, BitVec.getElem_not, BitVec.getElem_xor]
    cases v.toBitVec[i] <;> cases m.toBitVec[i] <;> rfl
  rw [hs, UInt32.xor_eq_zero_iff, ← UInt32.toNat_inj, UInt32.toNat_and, eq_comm]

theorem flag_clear (payload : Bytes) (o : ℕ) (mask : UInt32) :
    readU32Le payload o &&& mask = 0 ↔ number payload o 4 &&& mask.toNat = 0 := by
  rw [and_eq_zero, toNat_readU32Le]

theorem flags_known (payload : Bytes) (o : ℕ) (mask : UInt32) :
    readU32Le payload o &&& ~~~mask = 0 ↔
      number payload o 4 &&& mask.toNat = number payload o 4 := by
  rw [and_not_eq_zero, toNat_readU32Le]

theorem validateSession_ok {sessionId : UInt64} : validateSession payload = .ok sessionId ↔
      SessionShape payload ∧ readU64Le payload 0 = sessionId := by
  have hn : readU64Le payload 0 = 0 ↔ number payload 0 8 = 0 := readU64Le_eq_iff ..
  have hf : readU32Le payload 28 &&& ~~~sessionFlagsAll = 0 ↔
      number payload 28 4 &&& 15 = number payload 28 4 := flags_known ..
  have hr : readU32Le payload 36 = 0 ↔ number payload 36 4 = 0 := readU32Le_eq_iff ..
  have hso : readU32Le payload 28 &&& sessionTimerSource = 0 ↔
      number payload 28 4 &&& 4 = 0 := flag_clear ..
  have hu : readU32Le payload 28 &&& sessionTimerUnit = 0 ↔
      number payload 28 4 &&& 8 = 0 := flag_clear ..
  have hpi : readU32Le payload 28 &&& sessionProcessId = 0 ↔
      number payload 28 4 &&& 1 = 0 := flag_clear ..
  have hi : readU32Le payload 28 &&& sessionProcessIdentity = 0 ↔
      number payload 28 4 &&& 2 = 0 := flag_clear ..
  have pid : readU32Le payload 24 = 0 ↔ number payload 24 4 = 0 := readU32Le_eq_iff ..
  have hid : readU64Le payload 8 = 0 ↔ number payload 8 8 = 0 := readU64Le_eq_iff ..
  unfold validateSession
  simp only [guard_ok, not_or, not_not, toNat_readU16Le, ne_eq, hn, hf, hr, hso,
    hu, hpi, hi, pid, hid, decide_eq_decide, Bool.not_eq_true, not_and]
  constructor
  · rintro ⟨hsi, ⟨hn, hf, hso, hu, hr, hsf, huf, hpi, hi⟩, hsp, hup, hd⟩
    exact ⟨⟨hsi, hn, hf, hr, not_lt.mp hso, not_lt.mp hu, hsf,
      huf, hpi, hi, hsp, hup⟩, Except.ok.inj hd⟩
  rintro ⟨hs, hsa⟩
  exact ⟨hs.size, ⟨hs.named, hs.flags, not_lt.mpr hs.source,
    not_lt.mpr hs.unit, hs.reserved, hs.sourceFlag, hs.unitFlag,
    hs.processId, hs.processIdentity⟩, hs.sourcePadding, hs.unitPadding,
    congrArg _ hsa⟩

theorem validatePayload_thread :
    validatePayload .thread payload = .ok () ↔ ThreadShape payload := by
  have hn : readU32Le payload 8 = 0 ↔ number payload 8 4 = 0 := readU32Le_eq_iff ..
  have hf : readU32Le payload 20 &&& ~~~threadFlagsAll = 0 ↔
      number payload 20 4 &&& 1 = number payload 20 4 := flags_known ..
  have hi : readU32Le payload 20 &&& threadIdentity = 0 ↔
      number payload 20 4 &&& 1 = 0 := flag_clear ..
  have hid : readU64Le payload 0 = 0 ↔ number payload 0 8 = 0 := readU64Le_eq_iff ..
  have hr : readU64Le payload 24 = 0 ↔ number payload 24 8 = 0 := readU64Le_eq_iff ..
  unfold validatePayload
  simp only [guard_ok, not_or, not_not, ne_eq, hn, hf, hi, hid, hr,
    decide_eq_decide, and_true]
  constructor
  · rintro ⟨hs, hn, hf, hi, hr⟩
    exact ⟨hs, hn, hf, hi, hr⟩
  · rintro ⟨hs, hn, hf, hi, hr⟩
    exact ⟨hs, hn, hf, hi, hr⟩

theorem validatePayload_module :
    validatePayload .module payload = .ok () ↔ ModuleShape payload := by
  have hn : readU32Le payload 0 = 0 ↔ number payload 0 4 = 0 := readU32Le_eq_iff ..
  have hra : readU32Le payload 12 ≤ readU32Le payload 8 ↔
      number payload 12 4 ≤ number payload 8 4 := by
    rw [UInt32.le_iff_toNat_le, toNat_readU32Le, toNat_readU32Le]
  have hf : readU32Le payload 20 &&& ~~~moduleFlagsAll = 0 ↔
      number payload 20 4 &&& 7 = number payload 20 4 := flags_known ..
  have hc : readU32Le payload 20 &&& (moduleArm ||| moduleThumb) = 0 ↔
      number payload 20 4 &&& 6 = 0 := flag_clear ..
  have hr : readU64Le payload 24 = 0 ↔ number payload 24 8 = 0 := readU64Le_eq_iff ..
  unfold validatePayload
  simp only [guard_ok, not_or, not_not, ne_eq, hn, hra, hf, hc, hr, not_le, and_true]
  constructor
  · rintro ⟨hs, hn, hra, hf, hc, hr⟩
    exact ⟨hs, hn, hra, hf, hc, hr⟩
  · rintro ⟨hs, hn, hra, hf, hc, hr⟩
    exact ⟨hs, hn, hra, hf, hc, hr⟩

/-- The identifier and the generation in a metadata key. -/
def keyPair (key : UInt64) : ℕ × ℕ := (key.toNat / 2 ^ 32, key.toNat % 2 ^ 32)

theorem keyPair_inj {first second : UInt64} (hs : keyPair first = keyPair second) :
    first = second := by
  apply UInt64.toNat_inj.mp
  obtain ⟨hh, low⟩ := Prod.mk.inj hs
  omega

theorem keyPair_metadataKey (i g : UInt32) : keyPair (metadataKey i g) = (i.toNat, g.toNat) := by
  have low := g.toNat_lt
  have hh := i.toNat_lt
  have key : (metadataKey i g).toNat =
      g.toNat + 2 ^ 32 * i.toNat := by
    unfold metadataKey
    rw [UInt64.toNat_or, UInt64.toNat_shiftLeft, UInt32.toNat_toUInt64, UInt32.toNat_toUInt64,
      lor_comm]
    change _ ||| _ <<< 32 % _ = _
    exact or_shift low (by omega)
  rw [keyPair, key]
  congr 1 <;> omega

theorem keyPair_payload (payload : Bytes) (first second : ℕ) :
    keyPair (metadataKey (readU32Le payload first) (readU32Le payload second)) =
      (number payload first 4, number payload second 4) := by
  rw [keyPair_metadataKey, toNat_readU32Le, toNat_readU32Le]

theorem vpStreamAddMetadataKey_ok {keys ks' : List UInt64} {c : ℕ} {first second : ℕ} :
    vpStreamAddMetadataKey keys c
        (metadataKey (readU32Le payload first) (readU32Le payload second)) = .ok ks' ↔
      (number payload first 4, number payload second 4) ∉ keys.map keyPair ∧
      (keys.map keyPair).length ≠ c ∧
      ks' = keys ++ [metadataKey (readU32Le payload first) (readU32Le payload second)] := by
  have hm : (number payload first 4, number payload second 4) ∈ keys.map keyPair ↔
      metadataKey (readU32Le payload first) (readU32Le payload second) ∈ keys := by
    rw [← keyPair_payload, mem_map_of_injective fun _ _ => keyPair_inj]
  unfold vpStreamAddMetadataKey
  rw [guard_ok, guard_ok, hm, length_map, Except.ok.injEq, eq_comm (b := ks')]

/-- The progress that the reader of the profiler library has made. -/
def view (s : Reader) : Progress where
  sequence := s.chunkCount
  offset := s.offset
  ended := s.sawEnd
  sessionId := s.sessionId.toNat
  threadKeys := s.threadKeys.map keyPair
  moduleKeys := s.moduleKeys.map keyPair
  eventCount := s.eventCount
  counters :=
    if s.sawStats then some (s.previousEventsWritten.toNat, s.previousBytesWritten.toNat) else none

theorem countStats_ok {s s' : Reader} (hsi : payload.length = 32) :
    s.countStats payload = .ok s' ↔ Counts (view s) payload ∧ s' = { s with
        previousEventsWritten := readU64Le payload 16
        previousBytesWritten := readU64Le payload 24
        sawStats := true } := by
  unfold Reader.countStats
  rw [guard_ok, Except.ok.injEq, eq_comm (b := s'), and_congr_left_iff]
  rintro -
  rw [not_or, UInt64.lt_iff_toNat_lt, UInt64.lt_iff_toNat_lt, toNat_readU64Le, toNat_readU64Le,
    not_lt]
  constructor
  · rintro ⟨hp, hg⟩
    refine ⟨hsi, hp, fun events bytes hk => ?_⟩
    unfold view at hk
    split at hk
    case isTrue hs =>
      cases hk
      have hke := not_or.mp fun hr => hg ⟨hs, hr⟩
      exact ⟨not_lt.mp hke.1, not_lt.mp hke.2⟩
    case isFalse => cases hk
  rintro ⟨_, hp, hg⟩
  refine ⟨hp, fun ⟨hs, hr⟩ => ?_⟩
  have hke := hg _ _ (if_pos hs)
  omega

theorem view_counted (s : Reader) (payload : Bytes) : view { s with
      previousEventsWritten := readU64Le payload 16
      previousBytesWritten := readU64Le payload 24
      sawStats := true } = (view s).counted payload := by
  unfold view Progress.counted
  simp only [if_true, toNat_readU64Le]

theorem view_session (s : Reader) (payload : Bytes) :
    view { s with sessionId := readU64Le payload 0 } =
      { view s with sessionId := number payload 0 8 } := by
  unfold view
  rw [toNat_readU64Le]

theorem view_thread (s : Reader) (payload : Bytes) (first second : ℕ) :
    view { s with threadKeys := s.threadKeys ++
        [metadataKey (readU32Le payload first) (readU32Le payload second)] } =
      { view s with threadKeys := (view s).threadKeys ++
        [(number payload first 4, number payload second 4)] } := by
  unfold view
  rw [map_append, map_singleton, keyPair_payload]

theorem view_module (s : Reader) (payload : Bytes) (first second : ℕ) :
    view { s with moduleKeys := s.moduleKeys ++
        [metadataKey (readU32Le payload first) (readU32Le payload second)] } =
      { view s with moduleKeys := (view s).moduleKeys ++
        [(number payload first 4, number payload second 4)] } := by
  unfold view
  rw [map_append, map_singleton, keyPair_payload]

theorem view_finish (s : Reader) (payload : Bytes) : view { s with
      previousEventsWritten := readU64Le payload 16
      previousBytesWritten := readU64Le payload 24
      sawStats := true
      sawEnd := true } = { (view s).counted payload with ended := true } := by
  rw [← view_counted]
  rfl

/-- The sequence number that the reader expects is the number of chunks it has taken. -/
def Numbered (s : Reader) : Prop := s.expectedSequence = .ofNat s.chunkCount

section Library
variable {s s' s₁ s₂ : Reader} {c : ChunkView}

theorem Numbered.expects (hn : Numbered s) (few : s.chunkCount < 2 ^ 32) (sequence : UInt32) :
    sequence = s.expectedSequence ↔ sequence.toNat = s.chunkCount := by
  have hc : (UInt32.ofNat s.chunkCount).toNat = s.chunkCount := UInt32.toNat_ofNat_of_lt' few
  rw [hn, ← UInt32.toNat_inj, hc]

theorem validateChunk_ok (hn : Numbered s) (few : s.chunkCount < 2 ^ 32) :
    s.validateChunk c = .ok s₁ ↔ (s.chunkCount = 0 ∧ c.type = .session ∧
        ∃ sessionId, validateSession c.payload = .ok sessionId ∧ s₁ = { s with sessionId }) ∨
      (s.chunkCount = 1 ∧ c.type = .dictionary ∧
        validatePayload c.type c.payload = .ok () ∧ s₁ = s) ∨
      (2 ≤ s.chunkCount ∧ (c.type ≠ .session ∧ c.type ≠ .dictionary) ∧
        validatePayload c.type c.payload = .ok () ∧ s₁ = s) := by
  have hz : s.expectedSequence = 0 ↔ s.chunkCount = 0 := by
    rw [eq_comm, hn.expects few, eq_comm]
    rfl
  have one : s.expectedSequence = 1 ↔ s.chunkCount = 1 := by
    rw [eq_comm, hn.expects few, eq_comm]
    rfl
  unfold Reader.validateChunk
  by_cases hf : s.chunkCount = 0
  · rw [if_pos (hz.mpr hf), guard_ok, not_not]
    cases validateSession c.payload with
    | error e => simp [hf]
    | ok sessionId => simp [hf, eq_comm]
  by_cases hs : s.chunkCount = 1
  · rw [if_neg (mt hz.mp hf), if_pos (one.mpr hs), guard_ok, not_not]
    cases validatePayload c.type c.payload with
    | error e => simp [hs]
    | ok => simp [hs, eq_comm]
  have hl : 2 ≤ s.chunkCount := by omega
  rw [if_neg (mt hz.mp hf), if_neg (mt one.mp hs), guard_ok, not_or]
  cases validatePayload c.type c.payload with
  | error e => simp [hf, hs]
  | ok => simp [hf, hs, hl, eq_comm]

theorem validatePayload_dictionary : validatePayload .dictionary payload = .ok () ↔
      vpNameWireValidateLe payload = .ok payload.length := by
  unfold validatePayload
  cases vpNameWireValidateLe payload with
  | error e => simp
  | ok size => simp

theorem validatePayload_events :
    validatePayload .events payload = .ok () ↔ payload ≠ [] ∧ payload.length % 32 = 0 := by
  have hn : payload ≠ [] ↔ payload.length ≠ 0 := not_congr length_eq_zero_iff.symm
  rw [hn]
  change (if payload.length ≠ 0 ∧ payload.length % 32 = 0 then Except.ok () else _) = _ ↔ _
  split
  case isTrue hw => exact iff_of_true rfl hw
  case isFalse hp => exact iff_of_false nofun hp

theorem validatePayload_stats : (validatePayload .stats payload = .ok () ↔ payload.length = 32) ∧
      (validatePayload .endStream payload = .ok () ↔ payload.length = 32) := by
  unfold validatePayload
  constructor <;> simp

theorem collect_end {sequence : UInt32} (hs : payload.length = 32) :
    s.collect ⟨.endStream, sequence, payload⟩ = .ok s₂ ↔ Counts (view s) payload ∧
      number payload 16 8 = s.eventCount ∧ number payload 12 4 = 0 ∧
      number payload 24 8 = s.offset + (32 + payload.length) ∧
      s₂ = { s with
        previousEventsWritten := readU64Le payload 16
        previousBytesWritten := readU64Le payload 24
        sawStats := true
        sawEnd := true } := by
  have hcl : readU32Le payload 12 = 0 ↔ number payload 12 4 = 0 := readU32Le_eq_iff ..
  unfold Reader.collect
  dsimp only
  constructor
  · intro hc
    split at hc
    · cases hc
    case h_2 hcu =>
    obtain ⟨hco, rfl⟩ := (countStats_ok hs).mp hcu
    obtain ⟨hw, hd⟩ := guard_ok.mp hc
    rw [not_or, not_or, not_not, not_not, not_not, toNat_readU64Le, toNat_readU64Le, hcl,
      add_assoc] at hw
    exact ⟨hco, hw.1, hw.2.1, hw.2.2, (Except.ok.inj hd).symm⟩
  rintro ⟨hco, all, hn, ht, rfl⟩
  rw [(countStats_ok hs).mpr ⟨hco, rfl⟩]
  dsimp only
  rw [if_neg]
  rw [not_or, not_or, not_not, not_not, not_not, toNat_readU64Le, toNat_readU64Le, hcl, add_assoc]
  exact ⟨all, hn, ht⟩

theorem Adds.of_content (hn : Numbered s) (few : s.chunkCount < 2 ^ 32)
    (hv : s.validateChunk c = .ok s₁) (hc : s₁.collect c = .ok s₂) :
    Adds (view s) c.payload c.type (view s₂) := by
  obtain ⟨type, sequence, payload⟩ := c
  rcases (validateChunk_ok hn few).mp hv with ⟨hfi, rfl, sessionId, hsa, rfl⟩ |
    ⟨hse, rfl, hch, rfl⟩ | ⟨hl, ⟨hns, hnd⟩, hch, rfl⟩
  · obtain ⟨hsh, rfl⟩ := validateSession_ok.mp hsa
    cases hc
    rw [view_session]
    exact .session hfi hsh
  · cases hc
    exact .dictionary hse (validatePayload_dictionary.mp hch)
  cases type with
  | session => exact absurd rfl hns
  | dictionary => exact absurd rfl hnd
  | events =>
    cases hc
    obtain ⟨hso, hw⟩ := validatePayload_events.mp hch
    exact .events hl hso hw
  | thread =>
    unfold Reader.collect at hc
    dsimp only at hc
    split at hc
    · cases hc
    case h_2 keys ha =>
    cases hc
    obtain ⟨hf, hr, rfl⟩ := vpStreamAddMetadataKey_ok.mp ha
    rw [view_thread]
    exact .thread hl (validatePayload_thread.mp hch) hf hr
  | module =>
    unfold Reader.collect at hc
    dsimp only at hc
    split at hc
    · cases hc
    case h_2 keys ha =>
    cases hc
    obtain ⟨hf, hr, rfl⟩ := vpStreamAddMetadataKey_ok.mp ha
    rw [view_module]
    exact .module hl (validatePayload_module.mp hch) hf hr
  | stats =>
    have hs := validatePayload_stats.1.mp hch
    obtain ⟨hco, rfl⟩ := (countStats_ok hs).mp hc
    rw [view_counted]
    exact .stats hl hco
  | endStream =>
    have hs := validatePayload_stats.2.mp hch
    obtain ⟨hco, all, hcl, ht, rfl⟩ := (collect_end hs).mp hc
    rw [view_finish]
    exact .finish hl hco all hcl ht

theorem Adds.content (hn : Numbered s) (few : s.chunkCount < 2 ^ 32)
    (had : Adds (view s) c.payload c.type q) :
    ∃ s₁ s₂, s.validateChunk c = .ok s₁ ∧ s₁.collect c = .ok s₂ ∧ view s₂ = q := by
  have hp : ∀ s₁, _ → s.validateChunk c = .ok s₁ := fun s₁ =>
    (validateChunk_ok hn few).mpr
  obtain ⟨type, sequence, payload⟩ := c
  cases had with
  | session hfi hs =>
    have hv := validateSession_ok.mpr ⟨hs, rfl⟩
    exact ⟨_, _, hp _ (.inl ⟨hfi, rfl, _, hv, rfl⟩), rfl, view_session s payload⟩
  | dictionary hse hv =>
    have hc := validatePayload_dictionary.mpr hv
    exact ⟨s, s, hp _ (.inr (.inl ⟨hse, rfl, hc, rfl⟩)), rfl, rfl⟩
  | events hl hso hw =>
    have hc := validatePayload_events.mpr ⟨hso, hw⟩
    exact ⟨s, _, hp _ (.inr (.inr ⟨hl, ⟨nofun, nofun⟩, hc, rfl⟩)), rfl, rfl⟩
  | thread hl hs hf hr =>
    have hc := validatePayload_thread.mpr hs
    have ha := vpStreamAddMetadataKey_ok.mpr ⟨hf, hr, rfl⟩
    refine ⟨s, _, hp _ (.inr (.inr ⟨hl, ⟨nofun, nofun⟩, hc, rfl⟩)), ?_, view_thread s payload 8 12⟩
    unfold Reader.collect
    rw [ha]
  | module hl hs hf hr =>
    have hc := validatePayload_module.mpr hs
    have ha := vpStreamAddMetadataKey_ok.mpr ⟨hf, hr, rfl⟩
    refine ⟨s, _, hp _ (.inr (.inr ⟨hl, ⟨nofun, nofun⟩, hc, rfl⟩)), ?_, view_module s payload 0 4⟩
    unfold Reader.collect
    rw [ha]
  | stats hl hco =>
    have hc := validatePayload_stats.1.mpr hco.size
    exact ⟨s, _, hp _ (.inr (.inr ⟨hl, ⟨nofun, nofun⟩, hc, rfl⟩)),
      (countStats_ok hco.size).mpr ⟨hco, rfl⟩, view_counted s payload⟩
  | finish hl hco all hcl ht =>
    have hc := validatePayload_stats.2.mpr hco.size
    exact ⟨s, _, hp _ (.inr (.inr ⟨hl, ⟨nofun, nofun⟩, hc, rfl⟩)),
      (collect_end hco.size).mpr ⟨hco, all, hcl, ht, rfl⟩, view_finish s payload⟩

theorem acceptChunk_ok : s.acceptChunk c = .ok s' ↔
    c.sequence = s.expectedSequence ∧ s.sawEnd = false ∧
    ∃ s₁ s₂, s.validateChunk c = .ok s₁ ∧ s₁.collect c = .ok s₂ ∧
      s' = s₂.advance (32 + c.payload.length) := by
  unfold Reader.acceptChunk
  rw [guard_ok, not_or, not_not, Bool.not_eq_true, and_assoc]
  refine and_congr_right fun _ => and_congr_right fun _ => ?_
  constructor
  · intro ha
    split at ha
    · cases ha
    case h_2 s₁ hv =>
    split at ha
    · cases ha
    case h_2 s₂ hc =>
    exact ⟨s₁, s₂, hv, hc, (Except.ok.inj ha).symm⟩
  rintro ⟨s₁, s₂, hv, hc, rfl⟩
  rw [hv]
  dsimp only
  rw [hc]

section
variable (n : Numbered s)
include n

theorem Numbered.acceptChunk (ht : s.acceptChunk c = .ok s') : Numbered s' := by
  obtain ⟨_, hp⟩ := Prod.mk.inj (place_acceptChunk ht)
  obtain ⟨hs, hc⟩ := Prod.mk.inj hp
  rw [Numbered, hs, hc, n, UInt32.ofNat_add]
  rfl

theorem Takes.of_acceptChunk (few : s.chunkCount < 2 ^ 32)
    (ht : s.acceptChunk c = .ok s') : Takes (view s) c (view s') := by
  obtain ⟨hs, hu, s₁, s₂, hv, hc, rfl⟩ := acceptChunk_ok.mp ht
  exact ⟨(n.expects few _).mp hs, hu, view s₂, .of_content n few hv hc, rfl⟩

theorem Takes.acceptChunk (ht : Takes (view s) c p') :
    ∃ s', s.acceptChunk c = .ok s' ∧ view s' = p' := by
  have hp : c.sequence.toNat = s.chunkCount := ht.sequence
  have few : s.chunkCount < 2 ^ 32 := hp ▸ c.sequence.toNat_lt
  obtain ⟨q, ha, rfl⟩ := ht.adds
  obtain ⟨s₁, s₂, hv, hc, rfl⟩ := ha.content n few
  exact ⟨_, acceptChunk_ok.mpr ⟨(n.expects few _).mpr hp, ht.unfinished, s₁, s₂,
    hv, hc, rfl⟩, rfl⟩

theorem Run.of_accept (few : s.chunkCount + chunks.length ≤ 2 ^ 32)
    (ha : chunks.foldlM Reader.acceptChunk s = .ok s') : Run (view s) chunks (view s') := by
  induction chunks generalizing s with
  | nil =>
    cases ha
    exact .nil _
  | cons c chunks ih =>
    rw [foldlM_cons] at ha
    rw [length_cons] at few
    cases ht : s.acceptChunk c with
    | error e =>
      rw [ht] at ha
      cases ha
    | ok next =>
      rw [ht] at ha
      have hta := Takes.of_acceptChunk n (by omega) ht
      have hc : next.chunkCount = s.chunkCount + 1 := hta.sequence_succ
      exact .cons hta (ih (n.acceptChunk ht) (by omega) ha)

theorem Run.accept (run : Run (view s) chunks p') :
    ∃ s', chunks.foldlM Reader.acceptChunk s = .ok s' ∧ view s' = p' ∧ Numbered s' := by
  induction chunks generalizing s with
  | nil =>
    cases run
    exact ⟨s, rfl, rfl, n⟩
  | cons c chunks ih =>
    cases run with
    | cons hta hr =>
      obtain ⟨next, ht, rfl⟩ := hta.acceptChunk n
      obtain ⟨s', ha, hs⟩ := ih (n.acceptChunk ht) hr
      refine ⟨s', ?_, hs⟩
      rw [foldlM_cons, ht]
      exact ha

end

end Library

/-- The header of a chunk whose payload has arrived. -/
structure ChunkShape (input : Bytes) : Prop where
  magic : number input 0 4 = 0x32435056
  version : number input 4 2 = 2
  headerSize : number input 6 2 = 32
  flags : number input 10 2 = 0
  reserved : number input 24 8 = 0
  small : number input 12 4 ≤ 2097152
  whole : 32 + number input 12 4 ≤ input.length
  checksum : (vpStreamCrc32 ((input.drop 32).take (number input 12 4))).toNat = number input 20 4

theorem ofCode_some {code : UInt16} : ChunkType.ofCode code = some type ↔ type.code = code := by
  constructor
  · intro hf
    have hc := List.find?_some hf
    exact of_decide_eq_true hc
  · rintro rfl
    exact ofCode_code type

variable {input : Bytes}

theorem decodeChunk_ok {chunk : ChunkView} :
    vpStreamV2DecodeChunkLe input = .ok chunk ↔ ChunkShape input ∧
      chunk.type.code.toNat = number input 8 2 ∧ chunk.sequence.toNat = number input 16 4 ∧
      chunk.payload = (input.drop 32).take (number input 12 4) := by
  have magic : readU32Le input 0 = chunkMagic ↔ number input 0 4 = 0x32435056 := readU32Le_eq_iff ..
  have version : readU16Le input 4 = streamVersion ↔ number input 4 2 = 2 := readU16Le_eq_iff ..
  have headerSize : readU16Le input 6 = .ofNat chunkHeaderSize ↔ number input 6 2 = 32 :=
    readU16Le_eq_iff ..
  have flags : readU16Le input 10 = 0 ↔ number input 10 2 = 0 := readU16Le_eq_iff ..
  have reserved : readU64Le input 24 = 0 ↔ number input 24 8 = 0 := readU64Le_eq_iff ..
  have code (type : ChunkType) : type.code.toNat = number input 8 2 ↔
      type.code = readU16Le input 8 := by
    rw [← toNat_readU16Le, UInt16.toNat_inj]
  unfold vpStreamV2DecodeChunkLe
  simp only [guard_ok, toNat_readU32Le, ne_eq, not_or, not_not, magic, version, headerSize]
  constructor
  · rintro ⟨hl, magic, ⟨version, headerSize⟩, hre⟩
    split at hre
    · cases hre
    case h_2 type hk =>
    rw [guard_ok, guard_ok, guard_ok, not_or, not_or, not_not, not_not, not_not, flags,
      reserved] at hre
    obtain ⟨⟨flags, reserved, hsm⟩, whole, checksum, hd⟩ := hre
    cases hd
    refine ⟨⟨magic, version, headerSize, flags, reserved, not_lt.mp hsm,
      not_lt.mp whole, ?_⟩, (code type).mpr (ofCode_some.mp hk), toNat_readU32Le .., rfl⟩
    exact (congrArg UInt32.toNat checksum).trans (toNat_readU32Le ..)
  rintro ⟨hs, type, sequence, payload⟩
  have hl : ¬input.length < chunkHeaderSize := by
    have whole := hs.whole
    change ¬_ < 32
    omega
  refine ⟨hl, hs.magic, ⟨hs.version, hs.headerSize⟩, ?_⟩
  rw [ofCode_some.mpr ((code _).mp type)]
  rw [guard_ok, guard_ok, guard_ok, not_or, not_or, not_not, not_not, not_not, flags, reserved]
  refine ⟨⟨hs.flags, hs.reserved, not_lt.mpr hs.small⟩, not_lt.mpr hs.whole, ?_, ?_⟩
  · exact UInt32.toNat_inj.mp (hs.checksum.trans (toNat_readU32Le ..).symm)
  · have number : readU32Le input 16 = chunk.sequence :=
      UInt32.toNat_inj.mp ((toNat_readU32Le ..).trans sequence.symm)
    rw [number, ← payload]

/-- A chunk at the front of the input. -/
def Frame (input : Bytes) (chunk : ChunkView) (rest : Bytes) : Prop :=
  vpStreamV2DecodeChunkLe input = .ok chunk ∧ rest = input.drop (32 + chunk.payload.length)

/-- A complete stream: the chunks that its bytes hold follow the rules to the end. -/
structure Stream (input : Bytes) (chunks : List ChunkView) (p : Progress) : Prop where
  frames : Frames Frame input chunks
  run : Run .start chunks p
  ended : p.ended = true

theorem length_frames (hf : Frames Frame input chunks) :
    (chunks.map fun chunk => 32 + chunk.payload.length).sum = input.length := by
  induction hf with
  | done => rfl
  | next hfi ho ih =>
    obtain ⟨hd, rfl⟩ := hfi
    have hr := (decode_ok hd).1
    change 32 + _ ≤ _ at hr
    rw [length_drop] at ih
    rw [map_cons, sum_cons, ih]
    omega

theorem Frames.count_le (hf : Frames Frame input chunks) : 32 * chunks.length ≤ input.length := by
  induction hf with
  | done => exact le_refl _
  | next hfi ho ih =>
    obtain ⟨hd, rfl⟩ := hfi
    have hr := (decode_ok hd).1
    change 32 + _ ≤ _ at hr
    rw [length_drop] at ih
    rw [length_cons]
    omega

theorem Run.offset (run : Run p chunks p') :
    p'.offset = p.offset + (chunks.map fun chunk => 32 + chunk.payload.length).sum := by
  induction run with
  | nil p => rfl
  | cons ht hr ih =>
    obtain ⟨q, ha, rfl⟩ := ht.adds
    rw [ih, Progress.advance, ha.place.2, map_cons, sum_cons, add_assoc]

theorem round_frames (s : Reader) (input : Bytes) (s' : Reader) (rest : Bytes) :
    s.round input = .ok (some (s', rest)) ↔
      ∃ chunk, Frame input chunk rest ∧ s.acceptChunk chunk = .ok s' := by
  unfold Reader.round Frame
  constructor
  · intro hm
    split at hm
    · cases hm
    split at hm
    · cases hm
    case h_2 chunk hd =>
    split at hm
    · cases hm
    case h_2 ht =>
    cases hm
    exact ⟨chunk, ⟨hd, rfl⟩, ht⟩
  rintro ⟨chunk, ⟨hd, rfl⟩, ht⟩
  have hn : input ≠ [] := by
    rintro rfl
    cases hd
  rw [if_neg hn, hd]
  dsimp only
  rw [ht]

theorem round_none {s : Reader} {rest : Bytes} (hs : s.round rest = .ok none) : rest = [] := by
  unfold Reader.round at hs
  split at hs
  case isTrue he => exact he
  split at hs
  · cases hs
  split at hs
  · cases hs
  · cases hs

/-- The reader of the profiler library accepts the streams that follow the rules. -/
theorem vpStreamV2CursorInit_ok (hsh : input.length < 2 ^ 37) {info : StreamInfo} :
    vpStreamV2CursorInit input = .ok info ↔ ∃ chunks p, Stream input chunks p ∧
        info = ⟨.ofNat p.sessionId, p.sequence, p.eventCount, input.length⟩ := by
  have hfr := scan_frames shrinks_round (fun _ => rfl) round_frames .start
  have hn : Numbered .start := rfl
  unfold vpStreamV2CursorInit
  constructor
  · intro ho
    split at ho
    · cases ho
    case h_2 s rest hs =>
    obtain ⟨hw, hd⟩ := guard_ok.mp ho
    rw [not_or, not_or, Bool.not_eq_false] at hw
    have hst := scan_stopped shrinks_round hs
    have hem : rest = [] := round_none hst
    rw [hem] at hs
    obtain ⟨chunks, hf, ha⟩ := (hfr s input).mp hs
    have hc := Frames.count_le hf
    have run := Run.of_accept hn (by change 0 + _ ≤ _; omega) ha
    refine ⟨chunks, view s, ⟨hf, run, hw.2.2⟩, ?_⟩
    rw [← Except.ok.inj hd]
    change _ = StreamInfo.mk (.ofNat s.sessionId.toNat) s.chunkCount s.eventCount input.length
    rw [UInt64.ofNat_toNat]
  rintro ⟨chunks, p, ⟨hf, run, hen⟩, rfl⟩
  have hl := run.length_le.1
  have hla := run.ended_late nofun hen
  have hof := run.offset
  have hc := Frames.count_le hf
  rw [length_frames hf] at hof
  obtain ⟨s, ha, rfl, hn⟩ := Run.accept hn run
  change s.chunkCount = 0 + _ at hl
  change s.offset = 0 + _ at hof
  have he : s.expectedSequence.toNat = s.chunkCount :=
    ((Numbered.expects hn (by omega) s.expectedSequence).mp rfl)
  rw [(hfr s input).mpr ⟨chunks, hf, ha⟩]
  dsimp only
  rw [if_neg]
  · change _ = Except.ok (StreamInfo.mk (.ofNat s.sessionId.toNat) s.chunkCount s.eventCount
      input.length)
    rw [UInt64.ofNat_toNat]
  rintro (hot | hea | hu)
  · omega
  · rw [UInt32.lt_iff_toNat_lt, he] at hea
    exact Nat.not_lt_of_le hla hea
  · cases hen.symm.trans hu

end VitaDebugger.StreamRules
