import VitaDebugger.NameWire
import VitaDebugger.StreamChunks

/-! The writer and the reader of the trace stream agree: a stream that was closed is
accepted with the events that were drained, and none of its proper beginnings is. A writer
whose sink has failed stays silent and accounts for every event it took. -/

namespace VitaDebugger.StreamRoundTrip
open LittleEndian ScanLoop ProfilerEvent NameDictionary NameWire StreamReader StreamWriter List Nat
open Reader
open StreamChunks

/-- The writer after a chunk that the sink took. -/
def wrote (w : Writer) (calls : ℕ) (type : ChunkType) (payload : Bytes) : Writer := { w with
    sinkCalls := calls
    sunk := w.sunk ++ encode ⟨type, w.chunkSequence, payload⟩
    bytesWritten := w.bytesWritten + .ofNat (chunkHeaderSize + payload.length)
    chunkSequence := w.chunkSequence + 1
    chunks := w.chunks ++ [⟨type, w.chunkSequence, payload⟩] }

/-- The writer after the sink refused a buffer. -/
def broken (w : Writer) (calls : ℕ) (sunk : Bytes) (bytesWritten : UInt64) : Writer :=
  { w with sinkCalls := calls, sunk, bytesWritten, state := .failed }

variable {p : Bytes}

section Chunk
variable {accepts : ℕ → Bool} {w : Writer}

/-- The sink took every buffer from the `first` to before the `last`. -/
def Took (accepts : ℕ → Bool) (first last : ℕ) : Prop :=
  first ≤ last ∧ ∀ n, first ≤ n → n < last → accepts n = true

/-- The last buffer given to the sink is the first that it refused. -/
def Refused (accepts : ℕ → Bool) (first last : ℕ) : Prop :=
  ∃ n, last = n + 1 ∧ Took accepts first n ∧ accepts n = false

theorem write_took (ht : accepts w.sinkCalls = true) (data : Bytes) :
    w.write accepts data = (.ok (), { w with
      sinkCalls := w.sinkCalls + 1
      sunk := w.sunk ++ data
      bytesWritten := w.bytesWritten + .ofNat data.length }) := by
  rw [Writer.write, if_pos ht]

theorem write_refused (hr : accepts w.sinkCalls = false) (data : Bytes) :
    w.write accepts data = (.error .io, broken w (w.sinkCalls + 1) w.sunk w.bytesWritten) := by
  rw [Writer.write, if_neg (by rw [hr]; decide)]
  rfl

theorem writeChunk_cases (accepts : ℕ → Bool) (w : Writer) (type : ChunkType)
    (hfi : p.length ≤ maxChunkPayload) :
    (∃ cs, Took accepts w.sinkCalls cs ∧
      w.writeChunk accepts type p = (.ok (), wrote w cs type p)) ∨
    ∃ cs sunk bytesWritten, Refused accepts w.sinkCalls cs ∧
      w.writeChunk accepts type p = (.error .io, broken w cs sunk bytesWritten) := by
  have hn : Took accepts w.sinkCalls w.sinkCalls := ⟨le_refl _, fun n _ _ => by omega⟩
  unfold Writer.writeChunk
  rw [if_neg (by omega)]
  cases hh : accepts w.sinkCalls with
  | false =>
    rw [write_refused hh]
    exact .inr ⟨_, _, _, ⟨_, rfl, hn, hh⟩, rfl⟩
  | true =>
    have hf : Took accepts w.sinkCalls (w.sinkCalls + 1) :=
      ⟨le_succ _, fun n low hhi => (show n = w.sinkCalls by omega) ▸ hh⟩
    rw [write_took hh, length_chunkHeader]
    dsimp only
    unfold Writer.writePayload
    by_cases he : p.length = 0
    · rw [if_neg (not_not.mpr he)]
      refine .inl ⟨_, hf, ?_⟩
      have nil : p = [] := eq_nil_of_length_eq_zero he
      subst nil
      simp only [wrote, encode, append_nil, length_nil, add_zero]
    rw [if_pos he]
    cases hb : accepts (w.sinkCalls + 1) with
    | false =>
      rw [write_refused hb]
      exact .inr ⟨_, _, _, ⟨_, rfl, hf, hb⟩, rfl⟩
    | true =>
      rw [write_took hb]
      refine .inl ⟨w.sinkCalls + 1 + 1, ⟨by omega, fun n low hhi => ?_⟩, ?_⟩
      · rcases lt_or_eq_of_le (le_of_lt_succ hhi) with hbe | rfl
        · exact hf.2 n low hbe
        · exact hb
      · simp only [wrote, encode, append_assoc, UInt64.ofNat_add, UInt64.add_assoc]

end Chunk

/-- The reader `r` has taken the chunks written so far. -/
structure Framed (w : Writer) (r : Reader) : Prop where
  accepted : acceptChunks .start w.chunks = .ok r
  fit : Fit w.chunks
  handed : w.sunk = w.chunks.flatMap encode
  sequence : r.expectedSequence = w.chunkSequence
  number : w.chunkSequence = .ofNat w.chunks.length
  offset : r.offset = w.sunk.length
  bytes : w.bytesWritten = .ofNat w.sunk.length

/-- The tables and counters of the reader are those of the writer. -/
structure Counted (w : Writer) (r : Reader) : Prop where
  unfinished : r.sawEnd = false
  threads : r.threadKeys = w.threadMetadataKeys
  modules : r.moduleKeys = w.moduleMetadataKeys
  events : r.eventCount = w.drained.length
  written : w.eventsWritten = .ofNat w.drained.length
  lost : w.eventsLostToSink = 0
  decoded : chunksEvents w.chunks = .ok w.drained
  sparse : w.drained.length ≤ w.sunk.length
  previousEvents : r.previousEventsWritten.toNat ≤ w.drained.length
  previousBytes : r.previousBytesWritten.toNat ≤ w.sunk.length

variable {keys : List UInt64}

section Linked
variable {w : Writer} {r r' : Reader} {type : ChunkType}

theorem Framed.wrote (hf : Framed w r) (hfi : p.length ≤ maxChunkPayload)
    (ht : r.acceptChunk ⟨type, w.chunkSequence, p⟩ = .ok r') (cs : ℕ) :
    Framed (wrote w cs type p) r' := by
  have hm := place_acceptChunk ht
  simp only [place, Prod.mk.injEq] at hm
  refine ⟨acceptChunks_append hf.accepted ht, ?_, ?_, ?_, ?_, ?_, ?_⟩
  · intro c mem
    rcases mem_append.mp mem with old | new
    · exact hf.fit c old
    · exact mem_singleton.mp new ▸ hfi
  · change w.sunk ++ _ = (w.chunks ++ _).flatMap encode
    rw [hf.handed, flatMap_append, flatMap_singleton]
  · exact hm.2.1.trans (congrArg (· + 1) hf.sequence)
  · change w.chunkSequence + 1 = .ofNat (w.chunks ++ _).length
    rw [hf.number, length_append, UInt32.ofNat_add]
    rfl
  · change r'.offset = (w.sunk ++ _).length
    rw [hm.1, hf.offset, length_append, length_encode]
  · change w.bytesWritten + _ = .ofNat (w.sunk ++ _).length
    rw [hf.bytes, length_append, length_encode, UInt64.ofNat_add w.sunk.length]

theorem chunksEvents_append {chunks : List ChunkView} {c : ChunkView} {es more : List Event}
    (hb : chunksEvents chunks = .ok es) (hhe : chunkEvents c = .ok more) :
    chunksEvents (chunks ++ [c]) = .ok (es ++ more) := by
  induction chunks generalizing es with
  | nil =>
    cases hb
    rw [nil_append, chunksEvents, hhe]
    simp [chunksEvents, Except.map]
  | cons fr chunks ih =>
    rw [chunksEvents] at hb
    cases hh : chunkEvents fr with
    | error e =>
      rw [hh] at hb
      cases hb
    | ok own =>
      rw [hh] at hb
      cases ht : chunksEvents chunks with
      | error e =>
        rw [ht] at hb
        cases hb
      | ok rest =>
        rw [ht] at hb
        cases hb
        rw [cons_append, chunksEvents, hh]
        rw [ih ht]
        simp only [Except.map, append_assoc]

theorem acceptChunk_of {chunk : ChunkView} {c : Reader}
    (hs : chunk.sequence = r.expectedSequence) (hu : r.sawEnd = false)
    (hv : r.validateChunk chunk = .ok c) (hc : c.collect chunk = .ok r') :
    r.acceptChunk chunk = .ok (r'.advance (chunkHeaderSize + chunk.payload.length)) := by
  unfold acceptChunk
  rw [if_neg (by simp [hs, hu]), hv]
  dsimp only
  rw [hc]

theorem length_flatMap_encode_le {chunks : List ChunkView} (fit : Fit chunks) :
    (chunks.flatMap encode).length ≤ chunks.length * (chunkHeaderSize + maxChunkPayload) := by
  induction chunks with
  | nil => exact zero_le _
  | cons chunk chunks ih =>
    obtain ⟨hf, fit⟩ := forall_mem_cons.mp fit
    rw [flatMap_cons, length_append, length_encode, length_cons, succ_mul]
    have hr := ih fit
    omega

theorem length_le_flatMap_encode (chunks : List ChunkView) :
    chunks.length ≤ (chunks.flatMap encode).length := by
  induction chunks with
  | nil => exact zero_le _
  | cons chunk chunks ih =>
    rw [flatMap_cons, length_append, length_encode, length_cons]
    change _ ≤ 32 + _ + _
    omega

theorem Framed.length_lt (hf : Framed w r) (few : w.chunks.length < 2 ^ 32) :
    w.sunk.length < 2 ^ 54 := by
  have hb := length_flatMap_encode_le hf.fit
  rw [← hf.handed] at hb
  change _ ≤ _ * (32 + 2097152) at hb
  omega

/-- The reader's view of a STATS or END payload. -/
theorem encodeStats_words (w : Writer) (ring : RingStats) (bytesWritten : UInt64) :
    (w.encodeStats ring bytesWritten).length = statsPayloadSize ∧
      readU32Le (w.encodeStats ring bytesWritten) 12 = w.eventsLostToSink ∧
      readU64Le (w.encodeStats ring bytesWritten) 16 = w.eventsWritten ∧
      readU64Le (w.encodeStats ring bytesWritten) 24 = bytesWritten := by
  simp [Writer.encodeStats]

theorem countStats_encode (hc : Counted w r) (hs : w.drained.length < 2 ^ 64)
    (ring : RingStats) {bytesWritten : UInt64}
    (hl : r.previousBytesWritten.toNat ≤ bytesWritten.toNat) :
    r.countStats (w.encodeStats ring bytesWritten) = .ok { r with
      previousEventsWritten := w.eventsWritten
      previousBytesWritten := bytesWritten
      sawStats := true } := by
  obtain ⟨-, -, he, hb⟩ := encodeStats_words w ring bytesWritten
  have hw : w.eventsWritten.toNat = w.drained.length := by
    rw [hc.written, UInt64.toNat_ofNat_of_lt' hs]
  have hp := hc.previousEvents
  unfold countStats
  rw [he, hb]
  rw [if_neg]
  rw [hw, hc.events]
  rintro (hm | ⟨-, hf | hf⟩)
  · omega
  · rw [UInt64.lt_iff_toNat_lt, hw] at hf
    omega
  · rw [UInt64.lt_iff_toNat_lt] at hf
    omega

theorem Counted.drained_lt (hc : Counted w r) (hf : Framed w r)
    (few : w.chunks.length < 2 ^ 32) : w.drained.length < 2 ^ 64 := by
  have hs := hc.sparse
  have hsh := hf.length_lt few
  omega

theorem Framed.toNat_bytes (hf : Framed w r) (few : w.chunks.length < 2 ^ 32) :
    w.bytesWritten.toNat = w.sunk.length := by
  have hs := hf.length_lt few
  rw [hf.bytes, UInt64.toNat_ofNat_of_lt' (by change _ < 18446744073709551616; omega)]

theorem sunk_le_wrote (w : Writer) (cs : ℕ) (type : ChunkType) (p : Bytes) :
    w.sunk.length ≤ (wrote w cs type p).sunk.length := by
  change _ ≤ (w.sunk ++ _).length
  rw [length_append]
  exact le_add_right _ _

theorem decoded_wrote (hc : Counted w r) (ho : type ≠ .events) (cs : ℕ) :
    chunksEvents (wrote w cs type p).chunks = .ok w.drained := by
  have hn : chunkEvents ⟨type, w.chunkSequence, p⟩ = .ok [] := by
    rw [chunkEvents, if_neg ho]
  have all := chunksEvents_append hc.decoded hn
  rwa [append_nil] at all

theorem Counted.wrote (hc : Counted w r) (ho : type ≠ .events) (cs : ℕ)
    (p : Bytes) : Counted (wrote w cs type p) r :=
  have hg := sunk_le_wrote w cs type p
  { hc with
    decoded := decoded_wrote hc ho cs
    sparse := hc.sparse.trans hg
    previousBytes := hc.previousBytes.trans hg }

theorem length_flatMap_vpEncodeEventLe (es : List Event) :
    (es.flatMap vpEncodeEventLe).length = wireEventSize * es.length := by
  induction es with
  | nil => rfl
  | cons event es ih =>
    rw [flatMap_cons, length_append, ih, length_vpEncodeEventLe, length_cons, mul_succ, add_comm]

theorem decodeEvents_encode (es : List Event) :
    decodeEvents es.length (es.flatMap vpEncodeEventLe) = .ok es := by
  induction es with
  | nil => rfl
  | cons e es ih =>
    rw [length_cons, flatMap_cons, decodeEvents, vpDecodeEventLe_encode]
    rw [drop_left' (length_vpEncodeEventLe e), ih]
    rfl

/-- The reader has taken the whole stream of a closed writer. -/
structure Complete (w : Writer) (r : Reader) : Prop where
  framed : Framed w r
  finished : r.sawEnd = true
  long : 3 ≤ w.chunks.length
  decoded : chunksEvents w.chunks = .ok w.drained

/-- The reader has followed the writer to here. -/
structure Followed (w : Writer) (r : Reader) : Prop where
  framed : Framed w r
  counted : Counted w r

section
variable (f : Followed w r) (s : 2 ≤ w.chunks.length) (few : w.chunks.length < 2 ^ 32)
include f s few

/-- A chunk after the first two is accepted if its payload is valid and its entry in the
tables is. -/
theorem Followed.later (hk : type ≠ .session ∧ type ≠ .dictionary)
    (hfi : p.length ≤ maxChunkPayload) (hv : validatePayload type p = .ok ())
    (hc : r.collect ⟨type, w.chunkSequence, p⟩ = .ok r') (cs : ℕ) :
    Framed (wrote w cs type p) (r'.advance (chunkHeaderSize + p.length)) := by
  obtain ⟨hf, hco⟩ := f
  have hn : r.expectedSequence.toNat = w.chunks.length := by
    rw [hf.sequence, hf.number, UInt32.toNat_ofNat_of_lt' few]
  have hnf : r.expectedSequence ≠ 0 := fun hz => by
    rw [hz] at hn
    change 0 = _ at hn
    omega
  have hns : r.expectedSequence ≠ 1 := fun one => by
    rw [one] at hn
    change 1 = _ at hn
    omega
  have hch : r.validateChunk ⟨type, w.chunkSequence, p⟩ = .ok r := by
    unfold validateChunk
    rw [if_neg hnf, if_neg hns, if_neg (not_or.mpr hk), hv]
  exact hf.wrote hfi (acceptChunk_of hf.sequence.symm hco.unfinished hch hc) cs

theorem Followed.stats (ring : RingStats) (cs : ℕ) :
    ∃ r', Followed (wrote w cs .stats (w.encodeStats ring w.bytesWritten)) r' := by
  have hc := f.counted
  have hb := f.framed.toNat_bytes few
  have hs := (encodeStats_words w ring w.bytesWritten).1
  have hp := hc.previousBytes
  have hco := countStats_encode hc (hc.drained_lt f.framed few) ring (hp.trans_eq hb.symm)
  have hv : validatePayload .stats (w.encodeStats ring w.bytesWritten) = .ok () := by
    rw [validatePayload, if_pos hs]
  refine ⟨_, f.later s few (by decide) (by rw [hs]; decide) hv hco cs, ?_⟩
  have he : w.eventsWritten.toNat ≤ w.drained.length := by
    rw [hc.written, UInt64.toNat_ofNat']
    exact mod_le _ _
  exact { hc.wrote (by decide) cs _ with
    previousEvents := he
    previousBytes := (le_of_eq hb).trans (sunk_le_wrote ..) }

theorem Followed.thread {t : Thread}
    (hso : ¬(t.threadId = 0 ∨ t.flags &&& ~~~threadFlagsAll ≠ 0 ∨
      (decide (t.flags &&& threadIdentity ≠ 0) ≠ decide (t.identity ≠ 0))))
    (ha : vpStreamAddMetadataKey w.threadMetadataKeys maxThreadMetadata
      (metadataKey t.threadId t.generation) = .ok keys) (cs : ℕ) :
    ∃ r', Followed { wrote w cs .thread (threadPayload t) with threadMetadataKeys := keys } r' := by
  have hc := f.counted
  have hs : (threadPayload t).length = threadPayloadSize := by simp [threadPayload]
  have hv : validatePayload .thread (threadPayload t) = .ok () := by
    rw [validatePayload, if_neg (not_not.mpr hs)]
    simpa [threadPayload] using hso
  have key : metadataKey (readU32Le (threadPayload t) 8) (readU32Le (threadPayload t) 12) =
      metadataKey t.threadId t.generation := by simp [threadPayload]
  have hco : r.collect ⟨.thread, w.chunkSequence, threadPayload t⟩ =
      .ok { r with threadKeys := keys } := by
    rw [collect]
    rw [key, hc.threads, ha]
  have hf := f.later s few (by decide) (by rw [hs]; decide) hv hco cs
  exact ⟨_, { hf with }, { hc.wrote (by decide) cs _ with threads := rfl }⟩

theorem Followed.module {m : Module}
    (hso : ¬(m.moduleId = 0 ∨ m.addressEnd ≤ m.addressStart ∨
      m.flags &&& ~~~moduleFlagsAll ≠ 0 ∨
      m.flags &&& (moduleArm ||| moduleThumb) = 0))
    (ha : vpStreamAddMetadataKey w.moduleMetadataKeys maxModuleMetadata
      (metadataKey m.moduleId m.generation) = .ok keys) (cs : ℕ) :
    ∃ r', Followed { wrote w cs .module (modulePayload m) with moduleMetadataKeys := keys } r' := by
  have hc := f.counted
  have hs : (modulePayload m).length = modulePayloadSize := by simp [modulePayload]
  have hv : validatePayload .module (modulePayload m) = .ok () := by
    rw [validatePayload, if_neg (not_not.mpr hs)]
    simpa [modulePayload] using hso
  have key : metadataKey (readU32Le (modulePayload m) 0) (readU32Le (modulePayload m) 4) =
      metadataKey m.moduleId m.generation := by simp [modulePayload]
  have hco : r.collect ⟨.module, w.chunkSequence, modulePayload m⟩ =
      .ok { r with moduleKeys := keys } := by
    rw [collect]
    rw [key, hc.modules, ha]
  have hf := f.later s few (by decide) (by rw [hs]; decide) hv hco cs
  exact ⟨_, { hf with }, { hc.wrote (by decide) cs _ with modules := rfl }⟩

theorem Followed.events {events : List Event} (hso : events.length ≠ 0)
    (hf : events.length ≤ maxChunkPayload / wireEventSize) {drained : List Event}
    (all : drained = w.drained ++ events) {eventsWritten : UInt64}
    (sum : eventsWritten = w.eventsWritten + .ofNat events.length) (cs : ℕ) :
    ∃ r', Followed { wrote w cs .events (events.flatMap vpEncodeEventLe) with
      drained, eventsWritten } r' := by
  have hc := f.counted
  have hs := length_flatMap_vpEncodeEventLe events
  have hsm : events.length ≤ 65536 := hf
  have hco : (events.flatMap vpEncodeEventLe).length / wireEventSize = events.length := by
    rw [hs]
    exact Nat.mul_div_cancel_left _ (by decide)
  have hv : validatePayload .events (events.flatMap vpEncodeEventLe) = .ok () := by
    rw [validatePayload, if_pos]
    rw [hs]
    change 32 * _ ≠ 0 ∧ 32 * _ % 32 = 0
    omega
  have hcl : r.collect ⟨.events, w.chunkSequence, events.flatMap vpEncodeEventLe⟩ =
      .ok { r with eventCount := r.eventCount + events.length } := by
    rw [collect]
    rw [hco]
  have hh :
    chunkEvents ⟨.events, w.chunkSequence, events.flatMap vpEncodeEventLe⟩ = .ok events := by
    rw [chunkEvents, if_pos rfl]
    rw [hco, decodeEvents_encode]
  have hg := sunk_le_wrote w cs .events (events.flatMap vpEncodeEventLe)
  have hco : drained.length = w.drained.length + events.length := by
    rw [all, length_append]
  refine ⟨_, { f.later s few (by decide) ?_ hv hcl cs with },
    ⟨hc.unfinished, hc.threads, hc.modules, ?_, ?_, hc.lost, ?_, ?_, ?_, hc.previousBytes.trans hg⟩⟩
  · rw [hs]
    change 32 * _ ≤ 2097152
    omega
  · change r.eventCount + events.length = drained.length
    rw [hc.events, hco]
  · rw [sum, hc.written, hco, UInt64.ofNat_add]
  · rw [all]
    exact chunksEvents_append hc.decoded hh
  · change drained.length ≤ (w.sunk ++ _).length
    have hsp := hc.sparse
    rw [hco, length_append, length_encode]
    rw [hs]
    change _ ≤ _ + (32 + 32 * _)
    omega
  · have hp := hc.previousEvents
    change r.previousEventsWritten.toNat ≤ drained.length
    omega

theorem Followed.finish (ring : RingStats) {bytesWritten : UInt64}
    (ht : bytesWritten.toNat = w.sunk.length + chunkHeaderSize + statsPayloadSize) (cs : ℕ) :
    ∃ r', Complete { wrote w cs .endStream (w.encodeStats ring bytesWritten) with
      state := .closed } r' := by
  have hc := f.counted
  have hsm := hc.drained_lt f.framed few
  have hp := hc.previousBytes
  have hl : r.previousBytesWritten.toNat ≤ bytesWritten.toNat := by omega
  obtain ⟨hs, hlo, hw, hst⟩ := encodeStats_words w ring bytesWritten
  have hcu := countStats_encode hc hsm ring hl
  have hv : validatePayload .endStream (w.encodeStats ring bytesWritten) = .ok () := by
    rw [validatePayload, if_pos hs]
  have hco : r.collect ⟨.endStream, w.chunkSequence, w.encodeStats ring bytesWritten⟩ = .ok { r with
        previousEventsWritten := w.eventsWritten
        previousBytesWritten := bytesWritten
        sawStats := true
        sawEnd := true } := by
    rw [collect]
    rw [hcu]
    dsimp only
    rw [hw, hlo, hst, hs, ht, hc.written, UInt64.toNat_ofNat_of_lt' hsm,
      hc.events, hc.lost, f.framed.offset, if_neg (by simp)]
  have hf := f.later s few (by decide) (by rw [hs]; decide) hv hco cs
  refine ⟨_, { hf with }, rfl, ?_, decoded_wrote hc (by decide) cs⟩
  change 3 ≤ (w.chunks ++ [_]).length
  rw [length_append, length_singleton]
  omega

end

theorem length_textBytes (t : Option (ℕ → UInt8)) (m : ℕ) :
    (textBytes t (vpStreamBoundedTextLength t m)).length =
      vpStreamBoundedTextLength t m := by
  cases t with
  | none => rfl
  | some t => rw [textBytes, length_map, length_range]

theorem length_padded {size : ℕ} {bs : Bytes} (hf : bs.length ≤ size) :
    (padded size bs).length = size := by
  rw [padded, length_append, length_replicate]
  omega

/-- The fixed part of a SESSION payload. -/
def sessionWords (streamStartUs : UInt64) (session : Session) (sourceLength unitLength : ℕ) :
    Bytes :=
  writeU64Le session.sessionId ++ (writeU64Le session.processIdentity ++
    (writeU64Le streamStartUs ++ (writeU32Le session.processId ++ (writeU32Le session.flags ++
      (writeU16Le (.ofNat sourceLength) ++ (writeU16Le (.ofNat unitLength) ++ writeU32Le 0))))))

theorem sessionWords_reads (ssu : UInt64) (s : Session) (sourceLength unitLength : ℕ)
    (rest : Bytes) :
    let i := sessionWords ssu s sourceLength unitLength ++ rest
    readU64Le i 0 = s.sessionId ∧ readU64Le i 8 = s.processIdentity ∧
      readU32Le i 24 = s.processId ∧ readU32Le i 28 = s.flags ∧
      readU16Le i 32 = .ofNat sourceLength ∧ readU16Le i 34 = .ofNat unitLength ∧
      readU32Le i 36 = 0 := by
  simp [sessionWords]

theorem validateSession_payload {ssu : UInt64} {s : Session}
    {sourceLength unitLength : ℕ}
    (hso : (textBytes s.timerSource sourceLength).length = sourceLength)
    (hu : (textBytes s.timerUnit unitLength).length = unitLength)
    (hn : ¬(s.sessionId = 0 ∨ s.flags &&& ~~~sessionFlagsAll ≠ 0))
    (hs : ¬(timerSourceMax < sourceLength ∨ timerUnitMax < unitLength ∨
      (decide (s.flags &&& sessionTimerSource ≠ 0) ≠ decide (sourceLength ≠ 0)) ∨
      (decide (s.flags &&& sessionTimerUnit ≠ 0) ≠ decide (unitLength ≠ 0)) ∨
      (s.flags &&& sessionProcessId = 0 ∧ s.processId ≠ 0) ∨
      (s.flags &&& sessionProcessIdentity = 0 ∧ s.processIdentity ≠ 0))) :
    (Writer.sessionPayload ssu s sourceLength unitLength).length =
        sessionPayloadSize ∧
      validateSession (Writer.sessionPayload ssu s sourceLength unitLength) =
        .ok s.sessionId := by
  have hst : sourceLength ≤ 40 := not_lt.mp fun hl => hs (.inl hl)
  have hsh : unitLength ≤ 16 := not_lt.mp fun hl => hs (.inr (.inl hl))
  set words := sessionWords ssu s sourceLength unitLength with hf
  set texts := padded timerSourceMax (textBytes s.timerSource sourceLength) with hsu
  set units := padded timerUnitMax (textBytes s.timerUnit unitLength) with hut
  have hp : Writer.sessionPayload ssu s sourceLength unitLength =
      words ++ (texts ++ units) := by
    rw [Writer.sessionPayload, hf, sessionWords]
    simp only [append_assoc, hsu, hut]
  have hwl : words.length = 40 := by simp [hf, sessionWords]
  have htl : texts.length = 40 := length_padded (by rw [hso]; exact hst)
  have hul : units.length = 16 := length_padded (by rw [hu]; exact hsh)
  rw [hp]
  have hse : (words ++ (texts ++ units)).length = sessionPayloadSize := by
    rw [length_append, length_append, hwl, htl, hul]
  refine ⟨hse, ?_⟩
  have hsz : ((words ++ (texts ++ units)).drop (40 + sourceLength)).take
      (timerSourceMax - sourceLength) = List.replicate (timerSourceMax - sourceLength) 0 := by
    rw [hsu, padded, hso, append_assoc, ← append_assoc words,
      drop_left' (by rw [length_append, hwl, hso]), take_left' (by simp)]
  have huz : ((words ++ (texts ++ units)).drop (80 + unitLength)).take
      (timerUnitMax - unitLength) = List.replicate (timerUnitMax - unitLength) 0 := by
    rw [hut, padded, hu, ← append_assoc, ← append_assoc, drop_left' (by
        rw [length_append, length_append, hwl, htl, hu]),
      take_of_length_le (by simp)]
  obtain ⟨hsi, hi, hpi, hfl, hsr, hur, hr⟩ :=
    sessionWords_reads ssu s sourceLength unitLength (texts ++ units)
  have hsc : (UInt16.ofNat sourceLength).toNat = sourceLength :=
    UInt16.toNat_ofNat_of_lt' (by change _ < 65536; omega)
  have huc : (UInt16.ofNat unitLength).toNat = unitLength :=
    UInt16.toNat_ofNat_of_lt' (by change _ < 65536; omega)
  rw [← hf] at hsi hi hpi hfl hsr hur hr
  unfold validateSession
  rw [if_neg (not_not.mpr hse)]
  simp only [hsi, hi, hpi, hfl, hsr, hur, hr, hsc, huc, hsz, huz]
  rw [if_neg, if_neg (by simp), if_neg (by simp)]
  rintro (hz | hun | hl | hlu | hno | hd | hdu | noId | hni)
  · exact hn (.inl hz)
  · exact hn (.inr hun)
  · exact hs (.inl hl)
  · exact hs (.inr (.inl hlu))
  · exact hno rfl
  · exact hs (.inr (.inr (.inl hd)))
  · exact hs (.inr (.inr (.inr (.inl hdu))))
  · exact hs (.inr (.inr (.inr (.inr (.inl noId)))))
  · exact hs (.inr (.inr (.inr (.inr (.inr hni)))))

theorem Followed.session (hfo : Followed w r) (hfi : r.expectedSequence = 0)
    {s : Bytes} {sessionId : UInt64} (hs : s.length = sessionPayloadSize)
    (hv : validateSession s = .ok sessionId) (cs : ℕ) :
    ∃ r', Followed (wrote w cs .session s) r' ∧ r'.expectedSequence = 1 := by
  obtain ⟨hf, hc⟩ := hfo
  have hn : r.validateChunk ⟨.session, w.chunkSequence, s⟩ = .ok { r with sessionId } := by
    simp [validateChunk, hfi, hv]
  have ht := acceptChunk_of hf.sequence.symm hc.unfinished hn rfl
  refine ⟨_, ⟨hf.wrote (by rw [hs]; decide) ht cs, { hc.wrote (by decide) cs _ with }⟩, ?_⟩
  rw [hfi]
  rfl

theorem Followed.dictionary (hfo : Followed w r) (hs : r.expectedSequence = 1)
    {d : Bytes} (hfi : d.length ≤ maxChunkPayload)
    (hv : vpNameWireValidateLe d = .ok d.length) (cs : ℕ) :
    ∃ r', Followed (wrote w cs .dictionary d) r' := by
  obtain ⟨hf, hc⟩ := hfo
  have hp : validatePayload .dictionary d = .ok () := by
    rw [validatePayload, hv]
    exact if_pos rfl
  have hch : r.validateChunk ⟨.dictionary, w.chunkSequence, d⟩ = .ok r := by
    simp [validateChunk, hs, hp]
  have ht := acceptChunk_of hf.sequence.symm hc.unfinished hch rfl
  exact ⟨_, hf.wrote hfi ht cs, { hc.wrote (by decide) cs _ with }⟩

end Linked

/-- The events taken from the ring are written or lost. -/
structure Tally (w : Writer) (sent missing : ℕ) : Prop where
  total : sent + missing = w.drained.length
  written : w.eventsWritten = .ofNat sent
  lost : w.eventsLostToSink = .ofNat missing
  fewSent : sent ≤ 65536 * w.chunks.length
  fewMissing : missing ≤ 65536

def Streams (w : Writer) : Prop :=
  match w.state with
  | .ready => w.chunks = [] ∧ Followed w .start
  | .streaming => 2 ≤ w.chunks.length ∧ (w.chunks.length < 2 ^ 32 → ∃ r, Followed w r)
  | .closed => w.chunks.length < 2 ^ 32 → ∃ r, Complete w r
  | .failed => True

structure Inv (accepts : ℕ → Bool) (w : Writer) : Prop where
  names : WellFormed w.names
  took : w.state ≠ .failed → Took accepts 0 w.sinkCalls
  refused : w.state = .failed → Refused accepts 0 w.sinkCalls
  tally : ∃ sent missing, Tally w sent missing ∧ (w.state ≠ .failed → missing = 0)
  stream : Streams w

variable {ring : Except VpError RingStats} {names : Dictionary}

section Calls
variable {accepts : ℕ → Bool} {w v : Writer}

theorem Took.trans {first m last : ℕ} (hb : Took accepts first m)
    (ha : Took accepts m last) : Took accepts first last := by
  refine ⟨hb.1.trans ha.1, fun n low hh => ?_⟩
  rcases lt_or_ge n m with he | hl
  · exact hb.2 n low he
  · exact ha.2 n hl hh

theorem Took.refuse {first m last : ℕ} (hb : Took accepts first m)
    (ha : Refused accepts m last) : Refused accepts first last := by
  obtain ⟨n, last, ht, hr⟩ := ha
  exact ⟨n, last, hb.trans ht, hr⟩

theorem Inv.lose (inv : Inv accepts w) (ha : w.state ≠ .failed) {es : List Event}
    (few : es.length ≤ 65536) (hr : Refused accepts w.sinkCalls v.sinkCalls)
    (hf : v.state = .failed) (hn : v.names = w.names)
    (hd : v.drained = w.drained ++ es) (hw : v.eventsWritten = w.eventsWritten)
    (hl : v.eventsLostToSink = w.eventsLostToSink + .ofNat es.length)
    (hch : w.chunks.length ≤ v.chunks.length) : Inv accepts v := by
  obtain ⟨b, none, ht, hc⟩ := inv.tally
  have hz := hc ha
  refine ⟨hn ▸ inv.names, fun ho => absurd hf ho, fun _ => (inv.took ha).refuse hr,
    ⟨b, es.length, ⟨?_, ?_, ?_, ?_, few⟩, fun ho => absurd hf ho⟩, ?_⟩
  · have hto := ht.total
    rw [hd, length_append]
    omega
  · rw [hw, ht.written]
  · rw [hl, ht.lost, hz]
    exact UInt32.zero_add _
  · have hb := ht.fewSent
    omega
  · unfold Streams
    rw [hf]
    trivial

theorem nil_le : ([] : List Event).length ≤ 65536 := zero_le _

theorem Inv.broken (inv : Inv accepts w) (ha : w.state ≠ .failed) {cs : ℕ} {sunk : Bytes}
    {bytesWritten : UInt64} (hr : Refused accepts w.sinkCalls cs) :
    Inv accepts (broken w cs sunk bytesWritten) :=
  inv.lose ha nil_le hr rfl rfl (append_nil _).symm rfl (UInt32.add_zero _).symm (le_refl _)

theorem Inv.keep (inv : Inv accepts w) (ha : w.state ≠ .failed) {es : List Event}
    (hto : Took accepts w.sinkCalls v.sinkCalls) (hr : v.state ≠ .failed)
    (hn : v.names = w.names) (hd : v.drained = w.drained ++ es)
    (hw : v.eventsWritten = w.eventsWritten + .ofNat es.length)
    (hl : v.eventsLostToSink = w.eventsLostToSink)
    (hch : w.chunks.length * 65536 + es.length ≤ v.chunks.length * 65536)
    (hs : Streams v) : Inv accepts v := by
  obtain ⟨b, none, ht, hc⟩ := inv.tally
  have hz := hc ha
  refine ⟨hn ▸ inv.names, fun _ => (inv.took ha).trans hto, fun hf => absurd hf hr,
    ⟨b + es.length, none, ⟨?_, ?_, ?_, ?_, ht.fewMissing⟩, fun _ => hz⟩, hs⟩
  · have htt := ht.total
    rw [hd, length_append]
    omega
  · rw [hw, ht.written, UInt64.ofNat_add]
  · rw [hl, ht.lost]
  · have hb := ht.fewSent
    omega

theorem refusal_none (none : w.refusal = none) : w.state = .streaming := by
  unfold Writer.refusal at none
  split at none
  · cases none
  · split at none
    · cases none
    case isFalse ho => exact not_not.mp ho

theorem streaming_alive (hs : w.state = .streaming) : w.state ≠ .failed := by
  rw [hs]
  decide

theorem Inv.streaming (inv : Inv accepts w) (hst : w.state = .streaming) :
    2 ≤ w.chunks.length ∧ (w.chunks.length < 2 ^ 32 → ∃ r, Followed w r) := by
  have hs := inv.stream
  unfold Streams at hs
  rwa [hst] at hs

/-- A chunk goes out whole, with the events taken for it, and the writer goes on as `v`. -/
theorem Inv.send (inv : Inv accepts w) (hs : w.state = .streaming) {es : List Event}
    (hsm : es.length ≤ 65536) (ht : Took accepts w.sinkCalls v.sinkCalls)
    (hst : v.state = w.state) (hn : v.names = w.names)
    (hd : v.drained = w.drained ++ es)
    (hw : v.eventsWritten = w.eventsWritten + .ofNat es.length)
    (hlo : v.eventsLostToSink = w.eventsLostToSink)
    {c : ChunkView} (hc : v.chunks = w.chunks ++ [c])
    (hfo : ∀ r, Followed w r → w.chunks.length < 2 ^ 32 → ∃ r', Followed v r') :
    Inv accepts v := by
  obtain ⟨hsa, hf⟩ := inv.streaming hs
  have hl : v.chunks.length = w.chunks.length + 1 := by
    rw [hc, length_append, length_singleton]
  refine inv.keep (streaming_alive hs) ht (streaming_alive (hst.trans hs)) hn hd hw hlo ?_ ?_
  · omega
  unfold Streams
  rw [hst, hs]
  refine ⟨by omega, fun few => ?_⟩
  obtain ⟨r, hli⟩ := hf (by omega)
  exact hfo r hli (by omega)

/-- A call that reports success leaves a writer that has not failed. -/
def Honest {α : Type} (result : Except VpError α × Writer) : Prop :=
  ∀ a, result.1 = .ok a → result.2.state ≠ .failed

/-- A call keeps the invariant and reports honestly. -/
structure Good {α : Type} (accepts : ℕ → Bool) (result : Except VpError α × Writer) : Prop where
  inv : Inv accepts result.2
  honest : Honest result

theorem Good.error {α : Type} (inv : Inv accepts w) (e : VpError) :
    Good accepts ((.error e, w) : Except VpError α × Writer) := ⟨inv, nofun⟩

/-- A call that goes on after a chunk without events, unless the sink refuses it. -/
theorem Inv.chunk {α : Type} (inv : Inv accepts w) (alive : w.state ≠ .failed) {type : ChunkType}
    (fits : p.length ≤ maxChunkPayload)
    {next : Writer → Except VpError α × Writer}
    (sent : ∀ cs, Took accepts w.sinkCalls cs → Good accepts (next (wrote w cs type p))) :
    Good accepts (match w.writeChunk accepts type p with
      | (.error e, v) => (.error e, v)
      | (.ok (), v) => next v) := by
  rcases writeChunk_cases accepts w type fits with
    ⟨cs, took, wrote⟩ | ⟨cs, sunk, bytesWritten, refused, hb⟩
  · rw [wrote]
    exact sent cs took
  · rw [hb]
    exact ⟨inv.broken alive refused, nofun⟩

theorem encodeStats_fits (w : Writer) (ring : RingStats) (bytesWritten : UInt64) :
    (w.encodeStats ring bytesWritten).length ≤ maxChunkPayload := by
  rw [(encodeStats_words w ring bytesWritten).1]
  decide

theorem Inv.stats (inv : Inv accepts w) (hs : w.state = .streaming) (ring : RingStats)
    {cs : ℕ} (ht : Took accepts w.sinkCalls cs) :
    Inv accepts (wrote w cs .stats (w.encodeStats ring w.bytesWritten)) :=
  inv.send hs nil_le ht rfl rfl (append_nil _).symm (UInt64.add_zero _).symm rfl rfl fun _ hf few =>
    hf.stats (inv.streaming hs).1 few ring cs

theorem Inv.writeStatsV2 (inv : Inv accepts w) (ring : Except VpError RingStats) :
    Good accepts (w.writeStatsV2 accepts ring) := by
  unfold Writer.writeStatsV2
  split
  · exact .error inv _
  case h_2 hre =>
  have hs := refusal_none hre
  have ha := streaming_alive hs
  cases ring with
  | error e => exact .error inv e
  | ok ring =>
    have hf := encodeStats_fits w ring w.bytesWritten
    rcases writeChunk_cases accepts w .stats hf with
      ⟨cs, ht, hw⟩ | ⟨cs, sunk, bytesWritten, hr, hb⟩
    · dsimp only
      rw [hw]
      exact ⟨inv.stats hs ring ht, fun _ _ => ha⟩
    · dsimp only
      rw [hb]
      exact ⟨inv.broken ha hr, nofun⟩

theorem Inv.setTransportLossV2 (inv : Inv accepts w) (eventsLost : UInt32) :
    Good accepts (w.setTransportLossV2 eventsLost) := by
  unfold Writer.setTransportLossV2
  split
  · exact .error inv _
  case h_2 hr =>
  have hs := refusal_none hr
  have hst := inv.streaming hs
  obtain ⟨sent, m, ht, hcl⟩ := inv.tally
  refine ⟨⟨inv.names, inv.took, inv.refused, ⟨sent, m, { ht with }, hcl⟩, ?_⟩, fun _ _ =>
    streaming_alive hs⟩
  rw [hs]
  refine ⟨hst.1, fun few => ?_⟩
  obtain ⟨r, hf, hc⟩ := hst.2 few
  exact ⟨r, { hf with }, { hc with }⟩

theorem addMetadataKey_new {m : ℕ} {key : UInt64} (new : ¬key ∈ keys)
    (hr : ¬keys.length = m) :
    vpStreamAddMetadataKey keys m key = .ok (keys ++ [key]) := by
  rw [vpStreamAddMetadataKey, if_neg new, if_neg hr]

section
variable (inv : Inv accepts w)
include inv

theorem Inv.writeThreadV2 (t : Option Thread) : Good accepts (w.writeThreadV2 accepts t) := by
  unfold Writer.writeThreadV2
  split
  · exact .error inv _
  case h_2 hr =>
  have streaming := refusal_none hr
  have alive := streaming_alive streaming
  cases t with
  | none => exact .error inv _
  | some t =>
    dsimp only
    split
    · exact .error inv _
    case isFalse hso =>
    split
    · exact .error inv _
    case isFalse new =>
    split
    · exact .error inv _
    case isFalse hro =>
    have added := addMetadataKey_new new hro
    have hsi : (threadPayload t).length = threadPayloadSize := by simp [threadPayload]
    refine inv.chunk alive (by rw [hsi]; decide) fun cs ht => ?_
    dsimp only [wrote]
    rw [added]
    exact ⟨inv.send streaming nil_le ht rfl rfl
      (append_nil _).symm (UInt64.add_zero _).symm rfl rfl fun r hf few =>
      hf.thread (inv.streaming streaming).1 few hso added cs, fun _ _ => alive⟩

theorem Inv.writeModuleV2 (m : Option Module) : Good accepts (w.writeModuleV2 accepts m) := by
  unfold Writer.writeModuleV2
  split
  · exact .error inv _
  case h_2 hr =>
  have streaming := refusal_none hr
  have alive := streaming_alive streaming
  cases m with
  | none => exact .error inv _
  | some m =>
    dsimp only
    split
    · exact .error inv _
    case isFalse hso =>
    split
    · exact .error inv _
    case isFalse new =>
    split
    · exact .error inv _
    case isFalse hro =>
    have added := addMetadataKey_new new hro
    have hsi : (modulePayload m).length = modulePayloadSize := by simp [modulePayload]
    refine inv.chunk alive (by rw [hsi]; decide) fun cs ht => ?_
    dsimp only [wrote]
    rw [added]
    exact ⟨inv.send streaming nil_le ht rfl rfl
      (append_nil _).symm (UInt64.add_zero _).symm rfl rfl fun r hf few =>
      hf.module (inv.streaming streaming).1 few hso added cs, fun _ _ => alive⟩

theorem Inv.writeEvents (hs : w.state = .streaming)
    {es : List Event} (few : es.length ≤ maxChunkPayload / wireEventSize) :
    Good accepts ({ w with drained := w.drained ++ es }.writeEvents accepts es) := by
  have ha := streaming_alive hs
  unfold Writer.writeEvents
  split
  case isFalse hn =>
    have he : es = [] := eq_nil_of_length_eq_zero (not_not.mp hn)
    rw [he, append_nil]
    exact ⟨inv, fun _ _ => ha⟩
  case isTrue hso =>
  have hsm : es.length ≤ 65536 := few
  have hfi : (es.flatMap vpEncodeEventLe).length ≤ maxChunkPayload := by
    rw [length_flatMap_vpEncodeEventLe]
    change 32 * _ ≤ 2097152
    omega
  have hst := (inv.streaming hs).1
  generalize all : w.drained ++ es = drained
  rcases writeChunk_cases accepts { w with drained } .events hfi with
    ⟨cs, ht, hse⟩ | ⟨cs, sunk, bytesWritten, hr, hb⟩
  · rw [hse]
    exact ⟨inv.send hs hsm ht rfl rfl all.symm rfl rfl rfl fun r hl hf =>
      hl.events hst hf hso few all.symm rfl cs, fun _ _ => ha⟩
  · rw [hb]
    exact ⟨inv.lose ha hsm hr rfl rfl all.symm rfl rfl (le_refl _), nofun⟩

theorem Inv.drainV2 (a : List Event) (maxEvents : ℕ) (report : Bool) :
    Good accepts (w.drainV2 accepts a maxEvents report) := by
  unfold Writer.drainV2
  split
  · exact .error inv _
  split
  · exact .error inv _
  case h_2 hr =>
  refine inv.writeEvents (refusal_none hr) ?_
  have hl : (if maxEvents < min (w.dictionaryBufferCapacity / wireEventSize)
      (maxChunkPayload / wireEventSize) then maxEvents
      else min (w.dictionaryBufferCapacity / wireEventSize) (maxChunkPayload / wireEventSize)) ≤
        maxChunkPayload / wireEventSize := by
    split <;> omega
  exact (length_take_le _ _).trans hl

theorem Inv.writeSession (ready : w.state = .ready) {d : Bytes} {sessionId : UInt64}
    (size : p.length = sessionPayloadSize) (valid : validateSession p = .ok sessionId)
    (fits : d.length ≤ maxChunkPayload)
    (validNames : vpNameWireValidateLe d = .ok d.length) :
    Good accepts (w.writeSession accepts p d) := by
  have ha : w.state ≠ .failed := by
    rw [ready]
    decide
  obtain ⟨he, hf⟩ : w.chunks = [] ∧ Followed w .start := by
    have stream := inv.stream
    unfold Streams at stream
    rwa [ready] at stream
  refine inv.chunk ha (by rw [size]; decide) fun cs ht => ?_
  rcases writeChunk_cases accepts (wrote w cs .session p) .dictionary fits with
    ⟨more, tookNext, hsn⟩ | ⟨more, sunk, bytesWritten, refused, hb⟩
  · rw [hsn]
    have length : (wrote (wrote w cs .session p) more .dictionary
        d).chunks.length = 2 := by
      simp [wrote, he]
    refine ⟨inv.keep ha (ht.trans tookNext) nofun rfl (append_nil _).symm
      (UInt64.add_zero _).symm rfl ?_ ⟨le_of_eq length.symm, fun _ => ?_⟩, fun _ _ => nofun⟩
    · rw [he]
      exact zero_le _
    · obtain ⟨r, opened, hse⟩ := hf.session rfl size valid cs
      obtain ⟨r', framed, hc⟩ := opened.dictionary hse fits validNames more
      exact ⟨r', { framed with }, { hc with }⟩
  rw [hb]
  refine ⟨inv.lose ha nil_le (ht.refuse refused) rfl rfl
    (append_nil _).symm rfl (UInt32.add_zero _).symm ?_, nofun⟩
  rw [he]
  exact zero_le _

theorem Inv.beginV2 (ssu : UInt64) (s : Option Session) :
    Good accepts (w.beginV2 accepts ssu s) := by
  unfold Writer.beginV2
  split
  · exact .error inv _
  case isFalse hs =>
  have hr := not_not.mp hs
  cases s with
  | none => exact .error inv _
  | some s =>
    dsimp only
    split
    · exact .error inv _
    case isFalse hn =>
    split
    · exact .error inv _
    case isFalse hso =>
    cases he : vpEncodeNameDictionaryLe w.names w.dictionaryBufferCapacity with
    | error e => exact .error inv e
    | ok dictionary =>
      dsimp only
      split
      · exact .error inv _
      case isFalse hf =>
      obtain ⟨hsi, hv⟩ := validateSession_payload (length_textBytes _ _) (length_textBytes _ _)
        hn hso
      exact inv.writeSession hr hsi hv (not_lt.mp hf) (vpNameWireValidateLe_encode inv.names he).1

/-- The last chunk of a stream states the bytes of the stream with itself. -/
theorem Inv.finish (hs : w.state = .streaming) (ring : RingStats)
    {bytesWritten : UInt64} (ht : w.bytesWritten.toNat = w.sunk.length →
      bytesWritten.toNat = w.sunk.length + chunkHeaderSize + statsPayloadSize) {cs : ℕ}
    (hto : Took accepts w.sinkCalls cs) :
    Inv accepts { wrote w cs .endStream (w.encodeStats ring bytesWritten) with
      state := .closed } := by
  obtain ⟨hst, hf⟩ := inv.streaming hs
  refine inv.keep (streaming_alive hs) hto nofun rfl (append_nil _).symm
    (UInt64.add_zero _).symm rfl ?_ fun few => ?_
  · simp only [wrote, length_append, length_singleton, length_nil]
    omega
  have hsh : w.chunks.length < 2 ^ 32 := by
    simp only [wrote, length_append, length_singleton] at few
    omega
  obtain ⟨r, hl⟩ := hf hsh
  exact hl.finish hst hsh ring (ht (hl.framed.toNat_bytes hsh)) cs

theorem Inv.closeV2 (ring : Except VpError RingStats) : Good accepts (w.closeV2 accepts ring) := by
  unfold Writer.closeV2
  split
  · exact .error inv _
  case h_2 hre =>
  have streaming := refusal_none hre
  have alive := streaming_alive streaming
  cases ring with
  | error e => exact .error inv e
  | ok ring =>
    dsimp only
    split
    · exact .error inv _
    refine inv.chunk alive (encodeStats_fits ..) fun calls ht => ?_
    have next := inv.stats streaming ring ht
    split
    · exact .error next _
    case isFalse room =>
    refine next.chunk alive (encodeStats_fits ..) fun more htn => ?_
    refine ⟨next.finish streaming ring (fun hst => ?_) htn, fun _ _ => nofun⟩
    have room := UInt64.not_lt.mp room
    rw [UInt64.le_iff_toNat_le] at room
    rw [UInt64.toNat_add, UInt64.toNat_add]
    change _ ≤ 18446744073709551551 at room
    change ((_ + 32) % 18446744073709551616 + 32) % 18446744073709551616 = _ + 32 + 32
    omega

theorem Inv.call (call : WriterCall) : Good accepts (w.call accepts call) := by
  cases call with
  | beginV2 ssu ss => exact inv.beginV2 ssu ss
  | writeThreadV2 t => exact inv.writeThreadV2 t
  | writeModuleV2 m => exact inv.writeModuleV2 m
  | writeStatsV2 ring => exact inv.writeStatsV2 ring
  | setTransportLossV2 el => exact inv.setTransportLossV2 el
  | drainV2 a me rp =>
    have hg := inv.drainV2 a me rp
    refine ⟨hg.inv, fun _ ok => ?_⟩
    cases ho : (w.drainV2 accepts a me rp).1 with
    | error e =>
      rw [Writer.call, ho] at ok
      cases ok
    | ok c => exact hg.honest c ho
  | closeV2 ring => exact inv.closeV2 ring

theorem Inv.run (cs : List WriterCall) : Inv accepts (w.run accepts cs).2 := by
  induction cs generalizing w with
  | nil => exact inv
  | cons call cs ih => exact ih (inv.call call).inv

end

theorem init_fresh {c : ℕ} (hc : vpStreamWriterInitV2 names c ring = .ok w) :
    w = ⟨0, names, c, 0, 0, 0, .ready, 0, 0, [], [], [], [], []⟩ := by
  unfold vpStreamWriterInitV2 at hc
  split at hc
  · cases hc
  split at hc
  · cases hc
  split at hc
  · cases hc
  split at hc
  · cases hc
  · exact (Except.ok.inj hc).symm

theorem Inv.init {c : ℕ} (hr : Registered names)
    (hc : vpStreamWriterInitV2 names c ring = .ok w) : Inv accepts w := by
  rw [init_fresh hc]
  refine ⟨hr.wellFormed, fun _ => ⟨le_refl _, fun n _ hb => ?_⟩, nofun,
    ⟨0, 0, ⟨rfl, rfl, rfl, zero_le _, zero_le _⟩, fun _ => rfl⟩, rfl, ?_, ?_⟩
  · exact absurd hb (not_lt_zero _)
  · exact ⟨rfl, nofun, rfl, rfl, rfl, rfl, rfl⟩
  · exact ⟨rfl, rfl, rfl, rfl, rfl, rfl, rfl, le_refl _, le_refl _, le_refl _⟩

theorem call_failed (hf : w.state = .failed) (call : WriterCall) :
    ∃ e, w.call accepts call = (.error e, w) := by
  have hr : w.refusal = some .io := if_pos hf
  cases call with
  | beginV2 streamStartUs session =>
    have hs : w.state ≠ .ready := by
      rw [hf]
      decide
    exact ⟨.state, if_pos hs⟩
  | drainV2 available maxEvents rp =>
    cases rp with
    | false => exact ⟨.invalidArgument, rfl⟩
    | true => exact ⟨.io, by simp [Writer.call, Writer.drainV2, hr, Except.map]⟩
  | writeThreadV2 thread => exact ⟨.io, by simp [Writer.call, Writer.writeThreadV2, hr]⟩
  | writeModuleV2 module => exact ⟨.io, by simp [Writer.call, Writer.writeModuleV2, hr]⟩
  | writeStatsV2 ring => exact ⟨.io, by simp [Writer.call, Writer.writeStatsV2, hr]⟩
  | setTransportLossV2 eventsLost =>
    exact ⟨.io, by simp [Writer.call, Writer.setTransportLossV2, hr]⟩
  | closeV2 ring => exact ⟨.io, by simp [Writer.call, Writer.closeV2, hr]⟩

theorem run_failed (hf : w.state = .failed) (cs : List WriterCall) :
    (w.run accepts cs).2 = w ∧ ∀ o ∈ (w.run accepts cs).1, ∃ e, o = .error e := by
  induction cs with
  | nil => exact ⟨rfl, nofun⟩
  | cons call cs ih =>
    obtain ⟨e, hr⟩ : ∃ e, w.call accepts call = (.error e, w) := call_failed hf call
    unfold Writer.run
    rw [hr]
    exact ⟨ih.1, forall_mem_cons.mpr ⟨⟨e, rfl⟩, ih.2⟩⟩

/-- The last of the outcomes tells whether the sink has refused a buffer. -/
theorem Inv.run_honest (inv : Inv accepts w) (cs : List WriterCall) (ha : w.state ≠ .failed)
    (hf : (w.run accepts cs).2.state = .failed) :
    ∃ e, (w.run accepts cs).1.getLast? = some (.error e) := by
  induction cs generalizing w with
  | nil => exact absurd hf ha
  | cons c cs ih =>
    unfold Writer.run at hf ⊢
    dsimp only at hf ⊢
    by_cases now : (w.call accepts c).2.state = .failed
    · -- this call met the refusal: it and all calls after it report errors
      have he : ∀ o ∈ ((w.call accepts c).2.run accepts cs).1,
          ∃ e, o = .error e := (run_failed now cs).2
      cases hl : ((w.call accepts c).2.run accepts cs).1.getLast? with
      | none =>
        rw [List.getLast?_eq_none_iff.mp hl]
        cases hr : (w.call accepts c).1 with
        | error e => exact ⟨e, rfl⟩
        | ok => exact absurd now ((inv.call c).honest () hr)
      | some o =>
        obtain ⟨e, hre⟩ := he o (mem_of_getLast? hl)
        exact ⟨e, by rw [List.getLast?_cons, hl, hre, Option.getD_some]⟩
    · obtain ⟨e, hl⟩ := ih (inv.call c).inv now hf
      exact ⟨e, by rw [List.getLast?_cons, hl, Option.getD_some]⟩

theorem Complete.read {r : Reader} (hc : Complete w r) (few : w.chunks.length < 2 ^ 32) :
    ∃ info, readStream w.sunk = .ok (info, w.drained) := by
  obtain ⟨hf, hfi, hl, hd⟩ := hc
  have hs : scan round .start w.sunk = .ok (r, []) := by
    have hwh := scan_chunks hf.fit hf.accepted []
    rw [append_nil, ← hf.handed] at hwh
    exact hwh.trans (scan_stop (if_pos rfl))
  have ht : ¬r.expectedSequence < 3 := by
    rw [hf.sequence, hf.number, UInt32.lt_iff_toNat_lt,
      UInt32.toNat_ofNat_of_lt' (by change _ < 4294967296; omega)]
    exact not_lt.mpr hl
  have hw := cursorChunks_encode hf.fit hf.accepted [] (w.sunk.length + 1) (by
    have hsp := length_le_flatMap_encode w.chunks
    rw [← hf.handed] at hsp
    omega)
  rw [nil_append, ← hf.handed] at hw
  have ho : vpStreamV2CursorInit w.sunk =
      .ok ⟨r.sessionId, r.chunkCount, r.eventCount, w.sunk.length⟩ := by
    rw [vpStreamV2CursorInit, hs]
    dsimp only
    rw [if_neg]
    rintro (hot | hsh | hu)
    · exact hot hf.offset
    · exact ht hsh
    · rw [hfi] at hu
      cases hu
  refine ⟨⟨r.sessionId, r.chunkCount, r.eventCount, w.sunk.length⟩, ?_⟩
  unfold readStream
  rw [ho]
  have hsa : cursorChunks (w.sunk.length + 1) ⟨w.sunk, 0, 0⟩ = .ok w.chunks := hw
  rw [hsa]
  dsimp only
  rw [hd]
  rfl

theorem Inv.closed (inv : Inv accepts w)
    (hc : w.closeV2 accepts ring = (.ok (), v)) (few : v.chunks.length < 2 ^ 32) :
    ∃ r, Complete v r := by
  have ha : Inv accepts v := by
    have hk := (inv.closeV2 ring).inv
    rwa [hc] at hk
  have hst : v.state = .closed := by
    unfold Writer.closeV2 at hc
    split at hc
    · cases hc
    split at hc
    · cases hc
    split at hc
    · cases hc
    split at hc
    · cases hc
    split at hc
    · cases hc
    split at hc
    · cases hc
    · cases hc
      rfl
  have hs := ha.stream
  unfold Streams at hs
  rw [hst] at hs
  exact hs few

/-- The buffers that the sink refused, if any, end the calls to the sink. -/
theorem Inv.refused_last (inv : Inv accepts w) {n : ℕ} (hg : n < w.sinkCalls)
    (hr : accepts n = false) : w.state = .failed ∧ n + 1 = w.sinkCalls := by
  by_cases hf : w.state = .failed
  · obtain ⟨m, hl, ht, _⟩ := inv.refused hf
    refine ⟨hf, ?_⟩
    by_contra he
    have ha := ht.2 n (zero_le _) (by omega)
    rw [hr] at ha
    cases ha
  · have ha := (inv.took hf).2 n (zero_le _) hg
    rw [hr] at ha
    cases ha

theorem Inv.counts (inv : Inv accepts w) :
    w.eventsWritten + w.eventsLostToSink.toUInt64 = .ofNat w.drained.length ∧
      (w.drained.length < 2 ^ 64 →
        w.eventsWritten.toNat + w.eventsLostToSink.toNat = w.drained.length) := by
  obtain ⟨sent, m, ht, _⟩ := inv.tally
  have few := ht.fewMissing
  have hs : m < UInt32.size := by
    change _ < 4294967296
    omega
  have hto := ht.total
  rw [ht.written, ht.lost]
  refine ⟨?_, fun hsh => ?_⟩
  · rw [← hto, UInt64.ofNat_add]
    congr 1
    apply UInt64.toNat_inj.mp
    rw [UInt32.toNat_toUInt64, UInt32.toNat_ofNat_of_lt' hs,
      UInt64.toNat_ofNat_of_lt' (by change _ < 18446744073709551616; omega)]
  · rw [UInt32.toNat_ofNat_of_lt' hs,
      UInt64.toNat_ofNat_of_lt' (by change _ < 18446744073709551616; omega)]
    exact hto

end Calls

/-- What a closed stream holds is read back, cut short it is refused, and a writer whose sink
has refused a buffer gives it no other, reports only errors and has counted every event. -/
theorem stream_round_trip (accepts : ℕ → Bool) {capacity : ℕ}
    {first : Writer} (registered : Registered names)
    (created : vpStreamWriterInitV2 names capacity ring = .ok first) (calls : List WriterCall) :
    (∀ stats w, (first.run accepts calls).2.closeV2 accepts stats = (.ok (), w) →
      w.chunks.length < 2 ^ 32 → (∃ info, readStream w.sunk = .ok (info, w.drained)) ∧
        ∀ part, part <+: w.sunk → part ≠ w.sunk → ∃ e, vpStreamV2CursorInit part = .error e) ∧
    ∀ w outcomes, first.run accepts calls = (outcomes, w) → ∀ n < w.sinkCalls, accepts n = false →
        n + 1 = w.sinkCalls ∧ (∃ e, outcomes.getLast? = some (.error e)) ∧
        (∀ more, (w.run accepts more).2.sinkCalls = w.sinkCalls ∧
          ∀ outcome ∈ (w.run accepts more).1, ∃ e, outcome = .error e) ∧
        w.eventsWritten + w.eventsLostToSink.toUInt64 = .ofNat w.drained.length ∧
        (w.drained.length < 2 ^ 64 →
          w.eventsWritten.toNat + w.eventsLostToSink.toNat = w.drained.length) := by
  have hst : Inv accepts first := .init registered created
  have inv := hst.run calls
  refine ⟨fun stats w hcl few => ?_, fun w outcomes ran n hg hre => ?_⟩
  · obtain ⟨r, hc⟩ := inv.closed hcl few
    have hfr := hc.framed
    refine ⟨hc.read few, fun part hb hs => ?_⟩
    rw [hfr.handed] at hb hs
    exact cursorInit_truncated hfr.fit hfr.accepted hb hs
  obtain ⟨hf, hl⟩ := inv.refused_last (by rwa [ran]) hre
  have ha : first.state ≠ .failed := by
    rw [init_fresh created]
    exact nofun
  have hr := hst.run_honest calls ha hf
  rw [ran] at inv hf hl hr
  refine ⟨hl, hr, fun more => ?_, inv.counts⟩
  obtain ⟨hsa, he⟩ := run_failed hf more
  exact ⟨by rw [hsa], he⟩

def builtinOnly : Dictionary := (⟨[], [], 0, 0, false⟩ : Dictionary).vpNameDictionarySeal

def opened : Writer := ⟨0, builtinOnly, 4096, 0, 0, 0, .ready, 0, 0, [], [], [], [], []⟩

def oneEvent : List WriterCall :=
  [.drainV2 [] 1 true, .beginV2 7 (some ⟨1, 0, 0, 0, none, none⟩), .drainV2 [zeroEvent] 1 true]

/-- One event is drained after a refused call: with a sink that takes everything it is read
back, and with a sink that refuses the payload of its chunk it is counted as lost. -/
theorem stream_round_trip_oneEvent :
    (∃ w, (opened.run (fun _ => true) oneEvent).2.closeV2 (fun _ => true) (.ok ⟨1, 0, 0⟩) =
        (.ok (), w) ∧ w.drained = [zeroEvent] ∧
      (∃ info, readStream w.sunk = .ok (info, w.drained)) ∧
      ∃ e, vpStreamV2CursorInit [] = .error e) ∧
    ∃ w, (opened.run (· ≠ 5) oneEvent).2 = w ∧ w.drained = [zeroEvent] ∧ 5 + 1 = w.sinkCalls ∧
      w.eventsWritten.toNat + w.eventsLostToSink.toNat = w.drained.length := by
  have hf : vpNameDictionaryInit 0 0 = .ok ⟨[], [], 0, 0, false⟩ := rfl
  have hr : Registered builtinOnly := .close (.init hf)
  have hcr : vpStreamWriterInitV2 builtinOnly 4096 (.ok ⟨0, 0, 0⟩) = .ok opened := rfl
  constructor
  · have hc := (stream_round_trip (fun _ => true) hr hcr oneEvent).1 (.ok ⟨1, 0, 0⟩)
    generalize hre :
      (opened.run (fun _ => true) oneEvent).2.closeV2 (fun _ => true) (.ok ⟨1, 0, 0⟩) = en at hc
    have ran : en.1.toBool = true ∧ en.2.drained = [zeroEvent] ∧
        en.2.chunks.length = 5 ∧ en.2.sunk ≠ [] := by
      rw [← hre]
      decide +kernel
    obtain ⟨o, w⟩ := en
    obtain ⟨hrp, drained, hch, sunk⟩ := ran
    cases o with
    | error e => cases hrp
    | ok =>
      obtain ⟨hb, cut⟩ := hc w rfl (by rw [hch]; decide)
      exact ⟨w, rfl, drained, hb, cut [] nil_prefix sunk.symm⟩
  have hl := (stream_round_trip (· ≠ 5) hr hcr oneEvent).2
  generalize hre : opened.run (· ≠ 5) oneEvent = en at hl
  have ran : en.2.drained = [zeroEvent] ∧ en.2.sinkCalls = 6 := by
    rw [← hre]
    decide +kernel
  obtain ⟨os, w⟩ := en
  obtain ⟨drained, sinkCalls⟩ := ran
  obtain ⟨hla, -, -, -, hco⟩ := hl w os rfl 5 (by rw [sinkCalls]; decide) rfl
  exact ⟨w, rfl, drained, hla, hco (by rw [drained]; decide)⟩

end VitaDebugger.StreamRoundTrip
