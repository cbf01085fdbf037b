import VitaDebugger.StreamWriter

/-! The reader of the trace stream over bytes that are the chunks of a writer: it takes them
one by one, the cursor walks the same chunks, and no proper beginning of an accepted stream
is accepted. -/

namespace VitaDebugger.StreamChunks
open LittleEndian ProfilerEvent ScanLoop StreamReader StreamWriter List

/-- The bytes of a chunk. -/
def encode (chunk : ChunkView) : Bytes :=
  chunkHeader chunk.type chunk.sequence chunk.payload ++ chunk.payload

theorem length_chunkHeader (type : ChunkType) (sequence : UInt32) (p : Bytes) :
    (chunkHeader type sequence p).length = chunkHeaderSize := by
  simp [chunkHeader]

theorem length_encode (chunk : ChunkView) :
    (encode chunk).length = chunkHeaderSize + chunk.payload.length := by
  rw [encode, length_append, length_chunkHeader]

theorem ofCode_code (type : ChunkType) : ChunkType.ofCode type.code = some type := by
  cases type <;> rfl

theorem chunkHeader_words (type : ChunkType) (sequence : UInt32) (p rest : Bytes) :
    let i := chunkHeader type sequence p ++ rest
    readU32Le i 0 = chunkMagic ∧ readU16Le i 4 = streamVersion ∧
      readU16Le i 6 = .ofNat chunkHeaderSize ∧ readU16Le i 8 = type.code ∧
      readU16Le i 10 = 0 ∧ readU32Le i 12 = .ofNat p.length ∧
      readU32Le i 16 = sequence ∧ readU32Le i 20 = vpStreamCrc32 p ∧
      readU64Le i 24 = 0 := by
  simp [chunkHeader]

variable {chunk : ChunkView}

theorem decode_encode (hf : chunk.payload.length ≤ maxChunkPayload)
    (r : Bytes) : vpStreamV2DecodeChunkLe (encode chunk ++ r) = .ok chunk := by
  obtain ⟨hm, hv, hhs, hco, hfl, hps, hs, hc, hr⟩ :=
    chunkHeader_words chunk.type chunk.sequence chunk.payload (chunk.payload ++ r)
  have hsm : chunk.payload.length ≤ 2097152 := hf
  have hsi : (UInt32.ofNat chunk.payload.length).toNat = chunk.payload.length :=
    UInt32.toNat_ofNat_of_lt' (by change _ < 4294967296; omega)
  have hp : ((chunkHeader chunk.type chunk.sequence chunk.payload ++
      (chunk.payload ++ r)).drop chunkHeaderSize).take chunk.payload.length = chunk.payload := by
    rw [drop_left' (length_chunkHeader ..), take_left]
  have hl : (chunkHeader chunk.type chunk.sequence chunk.payload ++
      (chunk.payload ++ r)).length = chunkHeaderSize + (chunk.payload.length + r.length) := by
    rw [length_append, length_chunkHeader, length_append]
  rw [encode, append_assoc]
  unfold vpStreamV2DecodeChunkLe
  simp only [hm, hv, hhs, hco, hfl, hps, hs, hc, hr, hsi, hp, hl, ofCode_code]
  rw [if_neg (by omega), if_neg (by simp), if_neg (by simp), if_neg (by simpa using hf),
    if_neg (by omega), if_neg (by simp)]

theorem decode_ok {i : Bytes} (hd : vpStreamV2DecodeChunkLe i = .ok chunk) :
    chunkHeaderSize + chunk.payload.length ≤ i.length ∧
      chunk.payload.length = (readU32Le i 12).toNat := by
  unfold vpStreamV2DecodeChunkLe at hd
  split at hd
  · cases hd
  split at hd
  · cases hd
  split at hd
  · cases hd
  split at hd
  · cases hd
  dsimp only at hd
  split at hd
  · cases hd
  split at hd
  · cases hd
  case isFalse hr =>
  split at hd
  · cases hd
  cases hd
  have hs : ((i.drop chunkHeaderSize).take (readU32Le i 12).toNat).length =
      (readU32Le i 12).toNat := by
    rw [length_take, length_drop]
    omega
  exact ⟨by rw [hs]; omega, hs⟩

variable {part : Bytes}

theorem decode_truncated (hfi : chunk.payload.length ≤ maxChunkPayload)
    (hf : part <+: encode chunk) (hsh : part ≠ encode chunk) :
    ∃ e, vpStreamV2DecodeChunkLe part = .error e := by
  cases hd : vpStreamV2DecodeChunkLe part with
  | error e => exact ⟨e, rfl⟩
  | ok other =>
    obtain ⟨hr, hsi⟩ := decode_ok hd
    have hh : chunkHeader chunk.type chunk.sequence chunk.payload <+: part := by
      refine prefix_of_prefix_length_le (prefix_append _ _) hf ?_
      rw [length_chunkHeader]
      omega
    obtain ⟨rest, rfl⟩ := hh
    have hs := (chunkHeader_words chunk.type chunk.sequence chunk.payload rest).2.2.2.2.2.1
    have hsm : chunk.payload.length ≤ 2097152 := hfi
    rw [hs, UInt32.toNat_ofNat_of_lt' (by change _ < 4294967296; omega)] at hsi
    refine absurd (hf.eq_of_length_le ?_) hsh
    rw [length_encode]
    omega

/-- The reader's loop over chunks that have been decoded. -/
def acceptChunks (s : Reader) : List ChunkView → Except VpError Reader
  | [] => .ok s
  | chunk :: chunks =>
    match s.acceptChunk chunk with
    | .error e => .error e
    | .ok s => acceptChunks s chunks

def Fit (chunks : List ChunkView) : Prop := ∀ chunk ∈ chunks, chunk.payload.length ≤ maxChunkPayload

section Reading
variable {s s' : Reader} {cs : List ChunkView}

theorem acceptChunks_cons (ha : acceptChunks s (chunk :: cs) = .ok s') :
    ∃ n, s.acceptChunk chunk = .ok n ∧ acceptChunks n cs = .ok s' := by
  rw [acceptChunks] at ha
  cases ht : s.acceptChunk chunk with
  | error e =>
    rw [ht] at ha
    cases ha
  | ok n =>
    rw [ht] at ha
    exact ⟨n, rfl, ha⟩

theorem acceptChunks_append {last : Reader} (ha : acceptChunks s cs = .ok s')
    (ht : s'.acceptChunk chunk = .ok last) : acceptChunks s (cs ++ [chunk]) = .ok last := by
  induction cs generalizing s with
  | nil =>
    cases ha
    rw [nil_append, acceptChunks, ht]
    rfl
  | cons first cs ih =>
    obtain ⟨next, hh, hta⟩ := acceptChunks_cons ha
    rw [cons_append, acceptChunks, hh]
    exact ih hta

theorem shrinks_round : Shrinks Reader.round := by
  intro s input s' rest ho
  unfold Reader.round at ho
  split at ho
  · cases ho
  split at ho
  · cases ho
  case h_2 chunk hd =>
  split at ho
  · cases ho
  cases ho
  have hr := (decode_ok hd).1
  rw [length_drop]
  change 32 + _ ≤ _ at hr
  change _ - (32 + _) < _
  omega

theorem encode_ne_nil (chunk : ChunkView) (rest : Bytes) : encode chunk ++ rest ≠ [] := by
  intro he
  have hl := congrArg List.length he
  rw [length_append, length_encode] at hl
  change 32 + _ + _ = 0 at hl
  omega

theorem round_encode (hf : chunk.payload.length ≤ maxChunkPayload)
    (ht : s.acceptChunk chunk = .ok s') (rest : Bytes) :
    s.round (encode chunk ++ rest) = .ok (some (s', rest)) := by
  unfold Reader.round
  rw [if_neg (encode_ne_nil chunk rest), decode_encode hf]
  dsimp only
  rw [ht]
  rw [drop_left' (length_encode chunk)]

theorem scan_chunks (fit : Fit cs) (ha : acceptChunks s cs = .ok s') (rest : Bytes) :
    scan Reader.round s (cs.flatMap encode ++ rest) = scan Reader.round s' rest := by
  induction cs generalizing s with
  | nil =>
    cases ha
    rfl
  | cons chunk cs ih =>
    obtain ⟨next, hh, ht⟩ := acceptChunks_cons ha
    obtain ⟨hf, fit⟩ := forall_mem_cons.mp fit
    rw [flatMap_cons, append_assoc, scan_next shrinks_round (round_encode hf hh _)]
    exact ih fit ht

theorem sawEnd_of_acceptChunk (ht : s.acceptChunk chunk = .ok s') : s.sawEnd = false := by
  unfold Reader.acceptChunk at ht
  split at ht
  · cases ht
  case isFalse hc => simpa using (not_or.mp hc).2

theorem sequence_of_acceptChunk (ht : s.acceptChunk chunk = .ok s') :
    chunk.sequence = s.expectedSequence := by
  unfold Reader.acceptChunk at ht
  split at ht
  · cases ht
  case isFalse hc => simpa using (not_or.mp hc).1

/-- The loop over a proper beginning of accepted chunks does not reach the end of the
stream. -/
theorem scan_truncated (fit : Fit cs) (ha : acceptChunks s cs = .ok s')
    (hf : part <+: cs.flatMap encode) (hs : part ≠ cs.flatMap encode) :
    (∃ e, scan Reader.round s part = .error e) ∨
      ∃ last, scan Reader.round s part = .ok (last, []) ∧ last.sawEnd = false := by
  induction cs generalizing s part with
  | nil => exact absurd (prefix_nil.mp hf) hs
  | cons chunk cs ih =>
    obtain ⟨next, hh, ht⟩ := acceptChunks_cons ha
    obtain ⟨hfi, fit⟩ := forall_mem_cons.mp fit
    rcases Nat.lt_or_ge part.length (encode chunk).length with hl | hw
    · have hi : part <+: encode chunk := prefix_of_prefix_length_le hf (prefix_append _ _) hl.le
      by_cases he : part = []
      · rw [he]
        exact .inr ⟨s, scan_stop (by rw [Reader.round, if_pos rfl]), sawEnd_of_acceptChunk hh⟩
      obtain ⟨e, hr⟩ := decode_truncated hfi hi fun hsa => by
        rw [hsa] at hl
        exact Nat.lt_irrefl _ hl
      refine .inl ⟨e, scan_error ?_⟩
      rw [Reader.round, if_neg he, hr]
    obtain ⟨rest, rfl⟩ := prefix_of_prefix_length_le (prefix_append _ _) hf hw
    rw [scan_next shrinks_round (round_encode hfi hh rest)]
    exact ih fit ht ((prefix_append_right_inj _).mp hf)
      fun hsa => hs (congrArg (encode chunk ++ ·) hsa)

/-- No proper beginning of an accepted stream is accepted. -/
theorem cursorInit_truncated (fit : Fit cs) (ha : acceptChunks .start cs = .ok s')
    (hfi : part <+: cs.flatMap encode) (hsh : part ≠ cs.flatMap encode) :
    ∃ e, vpStreamV2CursorInit part = .error e := by
  rcases scan_truncated fit ha hfi hsh with ⟨e, hf⟩ | ⟨last, hs, hu⟩
  · exact ⟨e, by rw [vpStreamV2CursorInit, hf]⟩
  refine ⟨.malformed, ?_⟩
  rw [vpStreamV2CursorInit, hs]
  dsimp only
  rw [if_pos (.inr (.inr hu))]

/-- The part of the reader that no chunk changes before it is accepted. -/
def place (s : Reader) : ℕ × UInt32 × ℕ := (s.offset, s.expectedSequence, s.chunkCount)

theorem place_validateChunk (hv : s.validateChunk chunk = .ok s') : place s' = place s := by
  unfold Reader.validateChunk at hv
  split at hv
  · split at hv
    · cases hv
    · split at hv <;> cases hv
      rfl
  split at hv
  · split at hv
    · cases hv
    · split at hv <;> cases hv
      rfl
  split at hv
  · cases hv
  · split at hv <;> cases hv
    rfl

theorem place_countStats {p : Bytes} (hc : s.countStats p = .ok s') : place s' = place s := by
  unfold Reader.countStats at hc
  dsimp only at hc
  split at hc <;> cases hc
  rfl

theorem place_collect (hc : s.collect chunk = .ok s') : place s' = place s := by
  unfold Reader.collect at hc
  split at hc
  · split at hc <;> cases hc
    rfl
  · split at hc <;> cases hc
    rfl
  · cases hc
    rfl
  · exact place_countStats hc
  · split at hc
    · cases hc
    case h_2 hco =>
      have hs := place_countStats hco
      split at hc <;> cases hc
      exact hs
  · cases hc
    rfl
  · cases hc
    rfl

theorem place_acceptChunk (ht : s.acceptChunk chunk = .ok s') :
    place s' = (s.offset + (chunkHeaderSize + chunk.payload.length), s.expectedSequence + 1,
      s.chunkCount + 1) := by
  unfold Reader.acceptChunk at ht
  split at ht
  · cases ht
  split at ht
  · cases ht
  case h_2 checked hv =>
  split at ht
  · cases ht
  case h_2 hc =>
    cases ht
    have hs := (place_collect hc).trans (place_validateChunk hv)
    simp only [place, Prod.mk.injEq] at hs ⊢
    simp only [Reader.advance, hs, and_self]

/-- The cursor walks the chunks that the reader accepts. -/
theorem cursorChunks_encode (fit : Fit cs) (ha : acceptChunks s cs = .ok s')
    (b : Bytes) (f : ℕ) (he : cs.length < f) :
    cursorChunks f ⟨b ++ cs.flatMap encode, b.length, s.expectedSequence⟩ =
      .ok cs := by
  induction cs generalizing s b f with
  | nil =>
    obtain ⟨f, rfl⟩ : ∃ n, f = n + 1 := ⟨f - 1, by rw [length_nil] at he; omega⟩
    rw [cursorChunks, vpStreamV2CursorNext, if_pos (by simp)]
  | cons chunk cs ih =>
    obtain ⟨next, hh, ht⟩ := acceptChunks_cons ha
    obtain ⟨hf, fit⟩ := forall_mem_cons.mp fit
    rw [length_cons] at he
    obtain ⟨f, rfl⟩ : ∃ n, f = n + 1 := ⟨f - 1, by omega⟩
    have hm : b.length ≠ (b ++ (chunk :: cs).flatMap encode).length := by
      rw [flatMap_cons, length_append, length_append, length_encode]
      change _ ≠ _ + (32 + _ + _)
      omega
    have hs : next.expectedSequence = s.expectedSequence + 1 :=
      congrArg (·.2.1) (place_acceptChunk hh)
    have hr := ih fit ht (b ++ encode chunk) f (by omega)
    rw [append_assoc, length_append, length_encode, hs] at hr
    rw [cursorChunks, vpStreamV2CursorNext, if_neg hm]
    rw [drop_left, flatMap_cons, decode_encode hf]
    dsimp only
    rw [if_neg (by simpa using sequence_of_acceptChunk hh)]
    dsimp only
    rw [hr]
    rfl

end Reading

end VitaDebugger.StreamChunks
