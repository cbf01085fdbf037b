import VitaDebugger.BrokerRequests

/-! The results of the attach broker: every record its writers produce is read by the host with
the values that were written, the percent-encoded message included. -/

namespace VitaDebugger.BrokerAgreement
open List Option UInt32 UInt64 UInt8
open AsciiText BrokerHost BrokerRecords BrokerRequests BrokerWire Fallible LowerHex TerminatedLines
open TraceDecoder (UnicodeData decodeUtf8)

def Printable (c : UInt8) : Prop := 0x20 ≤ c ∧ c ≤ 0x7e

instance (c : UInt8) : Decidable (Printable c) := inferInstanceAs (Decidable (_ ∧ _))

/-- A value that a line of a record can carry. -/
def Filled (value : Bytes) : Prop := value ≠ [] ∧ ∀ c ∈ value, Printable c

instance (value : Bytes) : Decidable (Filled value) :=
  @instDecidableAnd _ _ _ (decidableBAll Printable value)

/-- Unicode tables in which printable ASCII characters are no controls. -/
structure DisplayTables extends UnicodeData where
  printable : ∀ c : Char, 0x20 ≤ c.toNat → c.toNat ≤ 0x7e → toUnicodeData.safe c = true

variable {c : UInt8}

section Ascii
variable {bytes : Bytes}

/-- The text of ASCII bytes. -/
def asciiText (bytes : Bytes) : String := String.ofList (bytes.map fun c => Char.ofNat c.toNat)

theorem char_toNat (hp : Printable c) : (Char.ofNat c.toNat).toNat = c.toNat := by
  have hs : c.toNat ≤ 126 := le_iff_toNat_le.mp hp.2
  have hv : c.toNat.isValidChar := Or.inl (by omega)
  rw [Char.ofNat, dif_pos hv]
  rfl

theorem asciiText_bytes (hp : ∀ c ∈ bytes, Printable c) :
    (asciiText bytes).toUTF8.data.toList = bytes := by
  change (List.flatMap String.utf8EncodeChar _).toByteArray.data.toList = bytes
  rw [List.data_toByteArray, List.toList_toArray]
  induction bytes with
  | nil => rfl
  | cons c bytes ih =>
    obtain ⟨hf, ho⟩ := forall_mem_cons.mp hp
    have hsm : c.toNat ≤ 126 := le_iff_toNat_le.mp hf.2
    have hc : (Char.ofNat c.toNat).val.toNat = c.toNat := char_toNat hf
    have hs : String.utf8EncodeChar (Char.ofNat c.toNat) = [c] := by
      simp only [String.utf8EncodeChar, hc]
      rw [if_pos (by omega), UInt8.ofNat_toNat]
    rw [map_cons, flatMap_cons, hs, ih ho]
    rfl

theorem decodeUtf8_ascii (hp : ∀ c ∈ bytes, Printable c) :
    decodeUtf8 bytes = some (asciiText bytes) := by
  have hs : (⟨bytes.toArray⟩ : ByteArray) = (asciiText bytes).toByteArray := by
    have hl := congrArg List.toArray (asciiText_bytes hp)
    exact ByteArray.ext (hl.symm.trans Array.toArray_toList)
  rw [decodeUtf8, hs]
  simp [String.fromUTF8?, String.fromUTF8, (asciiText bytes).isValidUTF8]

theorem validateDisplayText_ascii (tbs : DisplayTables) (hp : ∀ c ∈ bytes, Printable c) :
    validateDisplayText tbs.toUnicodeData (asciiText bytes) = .ok () := by
  refine ensure_ok.mpr (all_eq_true.mpr ?_)
  rw [asciiText, String.toList_ofList]
  intro character hi
  obtain ⟨c, hm, rfl⟩ := mem_map.mp hi
  have hc := char_toNat (hp c hm)
  have hr := hp c hm
  apply tbs.printable
  · rw [hc]
    exact hr.1
  · rw [hc]
    exact hr.2

end Ascii

section Messages
variable {m e : Bytes} {capacity : ℕ}

theorem byte_escape : ∀ c : UInt8, vdIsPercentUnreserved c = alwaysSafe c ∧
    upperHex (c >>> 4) = upperHexChar (c >>> 4) ∧ upperHex (c &&& 15) = upperHexChar (c &&& 15) ∧
    escapeByte (upperHexChar (c >>> 4)) (upperHexChar (c &&& 15)) = some c ∧
    Printable (upperHexChar (c >>> 4)) ∧ Printable (upperHexChar (c &&& 15)) ∧
    (alwaysSafe c = true → c ≠ 37 ∧ Printable c) := by
  decide +kernel

theorem percentEncodeFrom_ok {o : Bytes}
    (run : percentEncodeFrom capacity o m = .ok e) :
    (∀ c ∈ m, Printable c) ∧ e = o ++ quoteFromBytes m := by
  induction m generalizing o with
  | nil =>
    cases run
    exact ⟨fun c hi => absurd hi not_mem_nil, (append_nil _).symm⟩
  | cons c m ih =>
    obtain ⟨hu, hh, low, _⟩ := byte_escape c
    rw [percentEncodeFrom] at run
    split at run
    · cases run
    rename_i hr
    have hp : Printable c := by
      simpa only [Printable, not_or, UInt8.not_lt, gt_iff_lt] using hr
    split at run
    · rename_i hs
      split at run
      · cases run
      obtain ⟨ho, rfl⟩ := ih run
      refine ⟨forall_mem_cons.mpr ⟨hp, ho⟩, ?_⟩
      rw [hu] at hs
      simp [quoteFromBytes, hs]
    rename_i he
    split at run
    · cases run
    obtain ⟨ho, rfl⟩ := ih run
    refine ⟨forall_mem_cons.mpr ⟨hp, ho⟩, ?_⟩
    rw [hu] at he
    simp [quoteFromBytes, he, hh, low]

theorem percentBytes_plain (rest : Bytes) (hp : c ≠ 37) (hpr : Printable c) :
    percentBytes (c :: rest) = (do
      let o ← percentBytes rest
      pure (c :: o)) := by
  have hr : ¬(c < 0x20 ∨ c > 0x7e) := by
    simpa only [Printable, not_or, UInt8.not_lt, gt_iff_lt] using hpr
  match rest with
  | [] => simp [percentBytes, hp, hr]
  | [_] => simp [percentBytes, hp, hr]
  | _ :: _ :: _ => rw [percentBytes, if_neg hp, if_neg hr]

theorem percentBytes_quote : percentBytes (quoteFromBytes m) = .ok m := by
  induction m with
  | nil => rfl
  | cons c m ih =>
    obtain ⟨_, _, _, he, _, _, hs⟩ := byte_escape c
    rw [quoteFromBytes, flatMap_cons, ← quoteFromBytes]
    split
    · rename_i ha
      rw [singleton_append, percentBytes_plain _ (hs ha).1 (hs ha).2, ih]
      rfl
    · change percentBytes (37 :: _ :: _ :: quoteFromBytes m) = _
      rw [percentBytes, if_pos rfl, he, ih]
      rfl

theorem quote_filled (hn : m ≠ []) : Filled (quoteFromBytes m) := by
  refine ⟨fun he => hn ?_, fun c hi => ?_⟩
  · have hr : percentBytes (quoteFromBytes m) = .ok m := percentBytes_quote
    rw [he] at hr
    exact (Except.ok.inj hr).symm
  obtain ⟨byte, hm, hs⟩ := mem_flatMap.mp hi
  obtain ⟨_, _, _, _, hh, low, hp⟩ := byte_escape byte
  split at hs
  · rename_i ha
    rw [mem_singleton.mp hs]
    exact (hp ha).2
  simp only [mem_cons, not_mem_nil, or_false] at hs
  rcases hs with rfl | rfl | rfl
  · decide
  · exact hh
  · exact low

theorem percentDecode_encoded (tbs : DisplayTables)
    (run : vdPercentEncodeMessage m capacity = .ok e) :
    percentDecode tbs.toUnicodeData e = .ok (asciiText m) ∧ Filled e := by
  unfold vdPercentEncodeMessage at run
  split at run
  · cases run
  split at run
  · rename_i he
    split at run
    · cases run
    cases run
    rw [he]
    have hz : Filled (ascii "%00") := by decide
    refine ⟨?_, hz⟩
    rw [percentDecode, if_pos rfl]
    rfl
  rename_i hn
  obtain ⟨hp, rfl⟩ := percentEncodeFrom_ok run
  rw [nil_append]
  have hr : percentBytes (quoteFromBytes m) = .ok m := percentBytes_quote
  have hu : quoteFromBytes m ≠ ascii "%00" := by
    intro hsa
    rw [hsa] at hr
    have hz : m = [0] := Except.ok.inj (hr.symm.trans (by decide))
    rw [hz] at hp
    exact absurd (hp 0 mem_cons_self) (by decide)
  have hf := quote_filled hn
  refine ⟨?_, hf⟩
  have hs := validateDisplayText_ascii tbs hp
  have ha : percentEncode tbs.toUnicodeData (asciiText m) =
      .ok (quoteFromBytes m) := by
    rw [percentEncode, hs]
    change Except.ok _ = _
    rw [asciiText_bytes hp, if_neg hf.1]
  rw [percentDecode, if_neg hu]
  refine bind_ok.mpr ⟨m, hr, ?_⟩
  rw [decodeUtf8_ascii hp]
  exact bind_ok.mpr ⟨(), hs, bind_ok.mpr ⟨_, ha, bind_ok.mpr ⟨(), ensure_ok.mpr rfl, rfl⟩⟩⟩

end Messages

variable {ds : ℕ}

section Values
variable {v : Bytes}

theorem isHex_printable (hex : IsHex c) : Printable c := by
  simp only [IsHex, Printable, UInt8.le_iff_toNat_le] at hex ⊢
  change 48 ≤ c.toNat ∧ c.toNat ≤ 57 ∨ 97 ≤ c.toNat ∧ c.toNat ≤ 102 at hex
  change 32 ≤ c.toNat ∧ c.toNat ≤ 126
  omega

theorem ne_nil_of_length (hl : v.length = ds) (hp : 0 < ds) : v ≠ [] := by
  rintro rfl
  rw [← hl] at hp
  exact absurd hp (Nat.lt_irrefl 0)

theorem HexField.filled {allowZero : Bool} [NeZero ds] (hf : HexField v ds allowZero) : Filled v :=
  ⟨ne_nil_of_length hf.1 (Nat.pos_of_neZero ds), fun c hi => isHex_printable (hf.2.1 c hi)⟩

theorem title_filled (hv : vdTitleIsValid v = true) : Filled v := by
  simp only [vdTitleIsValid, Bool.and_eq_true, decide_eq_true_eq, List.all_eq_true] at hv
  refine ⟨ne_nil_of_length hv.1 (by decide), fun c hi => ?_⟩
  have hl := hv.2 c hi
  simp only [Printable, UInt8.le_iff_toNat_le] at hl ⊢
  change 65 ≤ c.toNat ∧ c.toNat ≤ 90 ∨ 48 ≤ c.toNat ∧ c.toNat ≤ 57 at hl
  change 32 ≤ c.toNat ∧ c.toNat ≤ 126
  omega

theorem decimal_filled (n : ℕ) : Filled (decimal n) := by
  refine ⟨decimal_ne_nil n, fun c hi => ?_⟩
  have hd := (isDigit_iff c).mp (decimal_digits n c hi)
  simp only [Printable, UInt8.le_iff_toNat_le]
  change 32 ≤ c.toNat ∧ c.toNat ≤ 126
  omega

theorem hexText_field {n : ℕ} (allowZero : Bool) (hs : n < 16 ^ ds)
    (hn : allowZero = true ∨ n ≠ 0) : HexField (hexText ds n) ds allowZero :=
  ⟨hexText_length ds n, hexText_isHex ds n, by rwa [hexValue_hexText hs]⟩

theorem word_field (word : UInt32) : HexField (hexText 8 word.toNat) 8 true :=
  hexText_field true word.toNat_lt (Or.inl rfl)

theorem word_value (word : UInt32) : word.toNat = hexValue (hexText 8 word.toNat) :=
  (hexValue_hexText word.toNat_lt).symm

theorem long_field {long : UInt64} {allowZero : Bool} (hn : allowZero = true ∨ long ≠ 0) :
    HexField (hexText 16 long.toNat) 16 allowZero := by
  refine hexText_field allowZero long.toNat_lt (hn.imp_right fun ho hz => ?_)
  exact ho (UInt64.toNat_inj.mp hz)

theorem long_value (long : UInt64) : long.toNat = hexValue (hexText 16 long.toNat) :=
  (hexValue_hexText long.toNat_lt).symm

theorem canonicalUint_decimal {n minimum m : ℕ} {l : String} (hp : 0 < n)
    (ha : minimum ≤ n) (hb : n ≤ m) :
    canonicalUint (decimal n) l minimum m = .ok n := by
  have hl := decimal_head hp
  have hu : decimal n ≠ [48] := by
    intro hz
    rw [hz] at hl
    exact hl rfl
  simp only [canonicalUint, bind_ok, ensure_ok, if_neg hu, decimalValue_decimal]
  refine ⟨(), Or.inr ?_, (), ⟨ha, hb⟩, rfl⟩
  rintro (he | hz | ho)
  · exact decimal_ne_nil n he
  · exact hl hz
  · rw [← Bool.not_eq_true, List.all_eq_true] at ho
    exact ho fun c hi => decide_eq_true (decimal_digits n c hi)

end Values

variable {state title : Bytes} {identity : Option VdAttachTargetIdentity}
  {ticket : Option Bytes}

section Results
variable {hd data : Bytes} {keys vs : List Bytes}

theorem Filled.line {value : Bytes} (hf : Filled value) : 10 ∉ value := fun hn =>
  absurd (hf.2 10 hn) (by decide)

theorem record_of_text (hc : vs.length = keys.length) (hhf : Filled hd)
    (hkf : ∀ key ∈ keys, Filled key) (hf : ∀ value ∈ vs, Filled value)
    (ht : data = recordText hd keys vs) (hfr : data.length ≤ 4096) :
    Record hd keys data vs := by
  refine ⟨hc, fun value hi => (hf value hi).1, fun value hi => (hf value hi).line, ht, ?_, hfr⟩
  intro c hi
  rw [ht, recordText, unlines] at hi
  obtain ⟨line, hm, hp⟩ := mem_flatMap.mp hi
  rcases mem_append.mp hp with hp | hn
  · right
    rcases mem_cons.mp hm with rfl | hm
    · exact hhf.2 c hp
    obtain ⟨i, hb, rfl⟩ := getElem_of_mem hm
    have hkb := lt_length_left_of_zipWith hb
    have hvb := lt_length_right_of_zipWith hb
    rw [getElem_zipWith, fieldLine, mem_append, mem_cons] at hp
    rcases hp with key | rfl | value
    · exact (hkf _ (getElem_mem hkb)).2 c key
    · decide
    · exact (hf _ (getElem_mem hvb)).2 c value
  · exact Or.inl (mem_singleton.mp hn)

theorem written_text {keys : List String} {vs : List Bytes} (s : Bytes) :
    (List.zipWith fieldText keys vs).foldl (· ++ ·) s =
      s ++ unlines 10 (List.zipWith fieldLine (keys.map ascii) vs) := by
  induction keys generalizing s vs with
  | nil => simp [unlines]
  | cons key keys ih =>
    cases vs with
    | nil => simp [unlines]
    | cons value vs =>
      rw [zipWith_cons_cons, foldl_cons, ih, map_cons, zipWith_cons_cons, unlines_cons]
      simp [fieldText, fieldLine]

theorem recordText_written {hd : String} {keys : List String} {vs : List Bytes} :
    (List.zipWith fieldText keys vs).foldl (· ++ ·) (ascii hd ++ [10]) =
      recordText (ascii hd) (keys.map ascii) vs := by
  rw [written_text, recordText, unlines_cons, append_assoc]
  rfl

theorem vdWriterAppend_ok {capacity : ℕ} {text : Bytes}
    (hw : vdWriterAppend capacity [] text = .ok data) : data = text ∧ data.length ≤ 4096 := by
  simp only [vdWriterAppend, bind_ok, ensure_ok, nil_append] at hw
  obtain ⟨_, _, _, _, _, hf, hr⟩ := hw
  cases hr
  exact ⟨rfl, Nat.not_lt.mp hf⟩

theorem parseRecord_written (hd : String) (keys : List String) (l : String)
    (vs : List Bytes) {capacity : ℕ} (hc : vs.length = keys.length)
    (hsh : ∀ t ∈ ascii hd :: keys.map ascii, Filled t)
    (hf : vs.Forall Filled) {t : Bytes} (hw : vdWriterAppend capacity [] t = .ok data)
    (hs : t = (List.zipWith fieldText keys vs).foldl (· ++ ·) (ascii hd ++ [10])) :
    ∃ fs, parseRecord data hd keys l = .ok fs ∧
      ∀ key, fs.get key = vs.getD (keys.idxOf key) [] := by
  obtain ⟨rfl, hfr⟩ := vdWriterAppend_ok hw
  obtain ⟨hhf, hkf⟩ := forall_mem_cons.mp hsh
  have hr := record_of_text (by rw [hc, length_map]) hhf hkf
    (forall_iff_forall_mem.mp hf) (hs.trans recordText_written) hfr
  exact ⟨_, (parseRecord_ok hhf.line fun key hi => (hkf key hi).line).mpr
    ⟨vs, hr, rfl⟩, fun key => get_zip hc⟩

variable (ts : DisplayTables) {config : VdAttachBrokerConfig} {g : UInt64}
  {n : Bytes} {capacity : ℕ}

theorem hello_written {r : VdHelloRequest} (hv : configIsValid config = true)
    (hs : g ≠ 0) (hnf : HexField n 64 false)
    (hif : HexField r.requestId 32 false)
    (hcf : HexField r.clientNonce 64 false)
    (hw : vdWriteHelloResult config g n r capacity = .ok data) :
    parseHelloResult ts.toUnicodeData data = .ok
      ⟨r.requestId, r.clientNonce, n, g.toNat,
        if config.serviceReady then ascii "ready" else ascii "unavailable", config.attachCaps.toNat,
        config.kernelAbi.toNat, config.kernelCaps.toNat, config.ticketLeaseMs.toNat,
        asciiText (if config.serviceReady then [] else ascii "service unavailable")⟩ := by
  simp only [configIsValid, decide_eq_true_eq] at hv
  obtain ⟨hck, hla, hlb, _⟩ := hv
  simp only [vdWriteHelloResult, bind_ok] at hw
  obtain ⟨ms, he, hw⟩ := hw
  obtain ⟨hd, hmf⟩ := percentDecode_encoded ts he
  have hsf : Filled (if config.serviceReady then ascii "ready" else ascii "unavailable") := by
    split <;> decide
  have hgf := @long_field g false (Or.inr hs)
  obtain ⟨fs, hr, hre⟩ := parseRecord_written BrokerHost.helloResultHeader
    helloResultKeys "hello result"
    [r.requestId, r.clientNonce, n, hexText 16 g.toNat,
        if config.serviceReady then ascii "ready" else ascii "unavailable",
        hexText 8 config.attachCaps.toNat, hexText 8 config.kernelAbi.toNat,
        hexText 8 config.kernelCaps.toNat, decimal config.ticketLeaseMs.toNat, ascii "disabled",
        ms]
    (by simp only [length_cons, length_nil]; rfl) (by decide)
      ⟨HexField.filled hif, HexField.filled hcf, HexField.filled hnf,
        HexField.filled hgf, hsf, HexField.filled (word_field _),
        HexField.filled (word_field _), HexField.filled (word_field _), decimal_filled _,
        by decide, hmf⟩ hw
    (by simp [helloResultKeys, BrokerWire.helloResultHeader, BrokerHost.helloResultHeader])
  simp (disch := decide) only [parseHelloResult, bind_ok, ensure_ok, token_ok, hexNumber_ok]
  refine ⟨fs, hr, ?_⟩
  simp only [hre]
  have hsk : (if config.serviceReady then ascii "ready" else ascii "unavailable") ∈
      [ascii "ready", ascii "unavailable"] := by
    split <;> decide
  have hll : 250 ≤ config.ticketLeaseMs.toNat := le_iff_toNat_le.mp hla
  have hlm : config.ticketLeaseMs.toNat ≤ 60000 := le_iff_toNat_le.mp hlb
  have hl : canonicalUint (decimal config.ticketLeaseMs.toNat) "ticket lease" minTicketLeaseMs
      maxTicketLeaseMs = .ok config.ticketLeaseMs.toNat :=
    canonicalUint_decimal (by omega) hll hlm
  exact ⟨(), hsk, (), rfl, _, ⟨word_field _, word_value _⟩, (),
    (capabilities_iff _).mp hck, _, ⟨hif, rfl⟩, _, ⟨hcf, rfl⟩, _,
    ⟨hnf, rfl⟩, _, ⟨hgf, long_value _⟩, _, ⟨word_field _, word_value _⟩, _,
    ⟨word_field _, word_value _⟩, _, hl, _, hd, rfl⟩

/-- What the broker answers to a discovery: a found target with its identity and ticket, or a
failure without either. -/
def DiscoverAnswer (title state : Bytes) (identity : Option VdAttachTargetIdentity)
    (ticket : Option Bytes) : Prop :=
  (state = ascii "found" ∧ ∃ found issued, identity = some found ∧ ticket = some issued ∧
    vdIdentityIsValid found title = true ∧ vdTokenIsValid issued 64 false = true) ∨
  (state ∈ [ascii "not_found", ascii "denied", ascii "changed", ascii "error"] ∧
    identity = none ∧ ticket = none)

section
variable (a : DiscoverAnswer title state identity ticket)
include a

theorem DiscoverAnswer.ticket_field : HexField (ticket.getD (List.replicate 64 48)) 64 true := by
  rcases a with ⟨_, _, issued, _, rfl, _, ht⟩ | ⟨_, _, rfl⟩
  · obtain ⟨hl, hex, _⟩ := vdTokenIsValid_iff.mp ht
    exact ⟨hl, hex, Or.inl rfl⟩
  · refine ⟨rfl, fun c hi => ?_, Or.inl rfl⟩
    rw [eq_of_mem_replicate hi]
    decide

theorem DiscoverAnswer.state_known : state ∈ discoveryStates := by
  rcases a with ⟨rfl, _⟩ | ⟨hm, _⟩
  · exact mem_cons_self
  · exact mem_cons_of_mem _ hm

theorem DiscoverAnswer.validate
    (htv : vdTitleIsValid title = true) {requestId serverNonce : Bytes}
    {serviceGeneration : ℕ} {message : String} :
    DiscoverResult.validate ⟨requestId, serverNonce, serviceGeneration, state, title,
      (identity.getD zeroIdentity).pid.toNat, (identity.getD zeroIdentity).mainModid.toNat,
      (identity.getD zeroIdentity).mainFingerprint.toNat,
      (identity.getD zeroIdentity).targetGeneration.toNat,
      ticket.getD (List.replicate 64 48), message⟩ = .ok () := by
  simp (disch := decide) only [DiscoverResult.validate, bind_ok, ensure_ok, checkRange,
    validateTitleId_ok, token_ok]
  refine ⟨(), a.state_known, _, ⟨htv, rfl⟩, (), toNat_lt _, (), toNat_lt _,
    (), toNat_lt _, (), toNat_lt _, _, ⟨a.ticket_field, rfl⟩, ?_⟩
  rcases a with ⟨rfl, found, issued, rfl, rfl, hv, ht⟩ | ⟨hm, rfl, rfl⟩
  · simp only [vdIdentityIsValid, Bool.and_eq_true, decide_eq_true_eq, UInt32.lt_iff_toNat_lt,
      UInt32.le_iff_toNat_le] at hv
    obtain ⟨_, hpi, hps, hmo, hms, hf, hg⟩ := hv
    rw [if_pos rfl]
    simp only [bind_ok, ensure_ok, getD_some]
    refine ⟨(), ⟨hpi, hps⟩, (), ⟨hmo, hms⟩, (), ?_, ?_⟩
    · exact fun hz => hf (UInt32.toNat_inj.mp hz)
    · rintro (hz | hz)
      · exact hg (UInt64.toNat_inj.mp hz)
      · exact ((vdTokenIsValid_iff.mp ht).2.2.resolve_left (by decide)) hz
  have hfa : state ≠ ascii "found" := by
    rintro rfl
    exact absurd hm (by decide)
  rw [if_neg hfa, ensure_ok]
  decide

end

theorem discover_written {r : VdDiscoverRequest} {p : Bytes}
    (hs : g ≠ 0) (hnf : HexField n 64 false)
    (hif : HexField r.requestId 32 false)
    (htv : vdTitleIsValid r.titleId = true)
    (ha : DiscoverAnswer r.titleId state identity ticket)
    (hw : vdWriteDiscoverResult g n r state identity ticket p capacity =
      .ok data) : parseDiscoverResult ts.toUnicodeData data = .ok
      ⟨r.requestId, n, g.toNat, state, r.titleId,
        (identity.getD zeroIdentity).pid.toNat, (identity.getD zeroIdentity).mainModid.toNat,
        (identity.getD zeroIdentity).mainFingerprint.toNat,
        (identity.getD zeroIdentity).targetGeneration.toNat,
        ticket.getD (List.replicate 64 48), asciiText p⟩ := by
  simp only [vdWriteDiscoverResult, bind_ok] at hw
  obtain ⟨ms, he, hw⟩ := hw
  obtain ⟨hd, hmf⟩ := percentDecode_encoded ts he
  have hgf := @long_field g false (Or.inr hs)
  have htf := @long_field (identity.getD zeroIdentity).targetGeneration true (Or.inl rfl)
  have hsf : ∀ state ∈ discoveryStates, Filled state := by decide
  obtain ⟨fs, hr, hre⟩ := parseRecord_written BrokerHost.discoverResultHeader
    discoverResultKeys "discover result"
    [r.requestId, n, hexText 16 g.toNat, state, r.titleId,
        hexText 8 (identity.getD zeroIdentity).pid.toNat,
        hexText 8 (identity.getD zeroIdentity).mainModid.toNat,
        hexText 8 (identity.getD zeroIdentity).mainFingerprint.toNat,
        hexText 16 (identity.getD zeroIdentity).targetGeneration.toNat,
        ticket.getD (List.replicate 64 48), ms]
    (by simp only [length_cons, length_nil]; rfl) (by decide)
      ⟨HexField.filled hif, HexField.filled hnf, HexField.filled hgf, hsf state ha.state_known,
        title_filled htv,
        HexField.filled (word_field _), HexField.filled (word_field _),
        HexField.filled (word_field _), HexField.filled htf,
        HexField.filled ha.ticket_field, hmf⟩ hw
    (by simp [discoverResultKeys, BrokerWire.discoverResultHeader, BrokerHost.discoverResultHeader])
  simp (disch := decide) only [parseDiscoverResult, bind_ok, token_ok, hexNumber_ok,
    validateTitleId_ok]
  refine ⟨fs, hr, ?_⟩
  simp only [hre]
  exact ⟨_, ⟨hif, rfl⟩, _, ⟨hnf, rfl⟩, _, ⟨hgf, long_value _⟩, _,
    ⟨htv, rfl⟩, _, ⟨word_field _, word_value _⟩, _, ⟨word_field _, word_value _⟩, _,
    ⟨word_field _, word_value _⟩, _, ⟨htf, long_value _⟩, _, ⟨ha.ticket_field, rfl⟩, _,
    hd, (), ha.validate htv, rfl⟩

theorem release_written {r : VdReleaseRequest} {p : Bytes} (hs : g ≠ 0)
    (hnf : HexField n 64 false) (hif : HexField r.requestId 32 false)
    (htf : HexField r.ticket 64 false) (hk : state ∈ releaseStates)
    (hw : vdWriteReleaseResult g n r state p capacity = .ok data) :
    parseReleaseResult ts.toUnicodeData data = .ok
      ⟨r.requestId, n, g.toNat, r.ticket, state, asciiText p⟩ := by
  simp only [vdWriteReleaseResult, bind_ok] at hw
  obtain ⟨ms, he, hw⟩ := hw
  obtain ⟨hd, hmf⟩ := percentDecode_encoded ts he
  have hgf := @long_field g false (Or.inr hs)
  have hsf : ∀ state ∈ releaseStates, Filled state := by decide
  obtain ⟨fs, hr, hre⟩ := parseRecord_written BrokerHost.releaseResultHeader
    releaseResultKeys "release result"
    [r.requestId, n, hexText 16 g.toNat, r.ticket, state, ms]
    (by simp only [length_cons, length_nil]; rfl) (by decide)
      ⟨HexField.filled hif, HexField.filled hnf, HexField.filled hgf, HexField.filled htf,
        hsf state hk, hmf⟩ hw
    (by simp [releaseResultKeys, BrokerWire.releaseResultHeader, BrokerHost.releaseResultHeader])
  simp (disch := decide) only [parseReleaseResult, bind_ok, ensure_ok, token_ok, hexNumber_ok]
  refine ⟨fs, hr, ?_⟩
  simp only [hre]
  exact ⟨(), hk, _, ⟨hif, rfl⟩, _, ⟨hnf, rfl⟩, _, ⟨hgf, long_value _⟩, _, ⟨htf, rfl⟩, _, hd, rfl⟩

end Results

section Parsed
variable {data : Bytes}

theorem hello_parsed {r : VdHelloRequest} (hp : vdParseHello data = .ok r) :
    HexField r.requestId 32 false ∧ HexField r.clientNonce 64 false := by
  obtain ⟨values, _, id, hn, _, _, _, _, hs⟩ :=
    (vdParseHello_fields data (hostHello r)).mp ⟨r, hp, rfl⟩
  rw [hostHello, HelloRequest.mk.injEq] at hs
  exact ⟨hs.1 ▸ id, hs.2.1 ▸ hn⟩

theorem discover_parsed {r : VdDiscoverRequest} (hp : vdParseDiscover data = .ok r) :
    HexField r.requestId 32 false ∧ vdTitleIsValid r.titleId = true := by
  obtain ⟨values, _, id, _, _, ht, _, hs⟩ :=
    (vdParseDiscover_fields data (hostDiscover r)).mp ⟨r, hp, rfl⟩
  rw [hostDiscover, DiscoverRequest.mk.injEq] at hs
  exact ⟨hs.1 ▸ id, hs.2.2.2 ▸ ht⟩

theorem release_parsed {r : VdReleaseRequest} (hp : vdParseRelease data = .ok r) :
    HexField r.requestId 32 false ∧ HexField r.ticket 64 false := by
  obtain ⟨values, _, id, _, _, ht, hs⟩ :=
    (vdParseRelease_fields data (hostRelease r)).mp ⟨r, hp, rfl⟩
  rw [hostRelease, ReleaseRequest.mk.injEq] at hs
  exact ⟨hs.1 ▸ id, hs.2.2.2 ▸ ht⟩

end Parsed

/-- What a validated configuration, a running service and a session's nonce are to the writers. -/
structure ServiceReady (config : VdAttachBrokerConfig) (generation : UInt64) (nonce : Bytes) :
    Prop where
  config : configIsValid config = true
  generation : generation ≠ 0
  nonce : vdTokenIsValid nonce 64 false = true

/-- Broker and host agree on the wire. The three request parsers take the same byte strings with
the same values, and the host's result parsers read back what the three writers wrote. -/
theorem broker_wire_agreement (tables : DisplayTables) :
    (∀ data, (vdParseHello data).toOption.map hostHello = (parseHelloRequest data).toOption) ∧
    (∀ data, (vdParseDiscover data).toOption.map hostDiscover =
      (parseDiscoverRequest data).toOption) ∧
    (∀ data, (vdParseRelease data).toOption.map hostRelease = (parseReleaseRequest data).toOption) ∧
    (∀ config generation nonce data request capacity response,
      ServiceReady config generation nonce → vdParseHello data = .ok request →
      vdWriteHelloResult config generation nonce request capacity = .ok response →
      parseHelloResult tables.toUnicodeData response = .ok
        ⟨request.requestId, request.clientNonce, nonce, generation.toNat,
          if config.serviceReady then ascii "ready" else ascii "unavailable",
          config.attachCaps.toNat, config.kernelAbi.toNat, config.kernelCaps.toNat,
          config.ticketLeaseMs.toNat,
          asciiText (if config.serviceReady then [] else ascii "service unavailable")⟩) ∧
    (∀ config generation nonce data request state identity ticket message capacity response,
      ServiceReady config generation nonce → vdParseDiscover data = .ok request →
      DiscoverAnswer request.titleId state identity ticket →
      vdWriteDiscoverResult generation nonce request state identity ticket message capacity =
        .ok response →
      parseDiscoverResult tables.toUnicodeData response = .ok
        ⟨request.requestId, nonce, generation.toNat, state, request.titleId,
          (identity.getD zeroIdentity).pid.toNat, (identity.getD zeroIdentity).mainModid.toNat,
          (identity.getD zeroIdentity).mainFingerprint.toNat,
          (identity.getD zeroIdentity).targetGeneration.toNat,
          ticket.getD (List.replicate 64 48), asciiText message⟩) ∧
    (∀ config generation nonce data request state message capacity response,
      ServiceReady config generation nonce → vdParseRelease data = .ok request →
      state ∈ releaseStates →
      vdWriteReleaseResult generation nonce request state message capacity = .ok response →
      parseReleaseResult tables.toUnicodeData response = .ok
        ⟨request.requestId, nonce, generation.toNat, request.ticket, state,
          asciiText message⟩) := by
  refine ⟨hello_agree, discover_agree, release_agree, ?_, ?_, ?_⟩
  · intro config generation nonce data request capacity response hr hp hw
    obtain ⟨id, hc⟩ := hello_parsed hp
    exact hello_written tables hr.config hr.generation (vdTokenIsValid_iff.mp hr.nonce) id hc hw
  · intro config generation nonce data request state identity ticket message capacity response hr
      hp ha hw
    obtain ⟨id, ht⟩ := discover_parsed hp
    exact discover_written tables hr.generation (vdTokenIsValid_iff.mp hr.nonce) id ht ha hw
  intro config generation nonce data request state message capacity response hr hp hk hw
  obtain ⟨id, ticket⟩ := release_parsed hp
  exact release_written tables hr.generation (vdTokenIsValid_iff.mp hr.nonce) id ticket hk hw

/-- Tables without any control character. -/
def plainTables : DisplayTables :=
  ⟨⟨fun _ => .other, fun _ => .other⟩, fun _ _ _ => rfl⟩

def sampleConfig : VdAttachBrokerConfig := ⟨true, 15, 0x1000e, 7, 5000, 1000, true⟩

def sampleToken : Bytes := List.replicate 63 48 ++ [49]

/-- A discovery request for a title. -/
def sampleDiscover : Bytes :=
  recordText BrokerWire.discoverHeader BrokerWire.discoverKeys
    [List.replicate 31 48 ++ [97], sampleToken, hexText 16 5, ascii "PCSE00001", modeObserve]

theorem broker_wire_agreement_found : ∃ request response,
    vdParseDiscover sampleDiscover = .ok request ∧
      vdWriteDiscoverResult 5 sampleToken request (ascii "found")
        (some ⟨ascii "PCSE00001", 0x10005, 0x4001, 0xdeadbeef, 9⟩) (some sampleToken)
        (ascii "ok, 100%") 4096 = .ok response ∧
      parseDiscoverResult plainTables.toUnicodeData response = .ok
        ⟨request.requestId, sampleToken, 5, ascii "found", request.titleId, 0x10005, 0x4001,
          0xdeadbeef, 9, sampleToken, asciiText (ascii "ok, 100%")⟩ := by
  have run : (do
      let request ← (vdParseDiscover sampleDiscover).toOption
      let _ ← (vdWriteDiscoverResult 5 sampleToken request (ascii "found")
        (some ⟨ascii "PCSE00001", 0x10005, 0x4001, 0xdeadbeef, 9⟩) (some sampleToken)
        (ascii "ok, 100%") 4096).toOption
      pure request.titleId) = some (ascii "PCSE00001") := by
    decide +kernel
  simp only [Option.bind_eq_bind, Option.bind_eq_some_iff, toOption_some, Option.pure_def,
    Option.some.injEq] at run
  obtain ⟨request, hp, response, hw, ht⟩ := run
  have hr : ServiceReady sampleConfig 5 sampleToken := ⟨by decide, by decide, by decide⟩
  have ha : DiscoverAnswer request.titleId (ascii "found")
      (some ⟨ascii "PCSE00001", 0x10005, 0x4001, 0xdeadbeef, 9⟩) (some sampleToken) :=
    Or.inl ⟨rfl, _, _, rfl, rfl, by rw [ht]; decide, by decide⟩
  exact ⟨request, response, hp, hw, (broker_wire_agreement plainTables).2.2.2.2.1
    sampleConfig 5 sampleToken sampleDiscover request _ _ _ _ _ response hr hp ha hw⟩

end VitaDebugger.BrokerAgreement
