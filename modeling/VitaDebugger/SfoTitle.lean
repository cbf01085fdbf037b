import VitaDebugger.AgentProtocol
import VitaDebugger.Fallible
import VitaDebugger.TraceDecoder

/-! The title of a `param.sfo`: the agent's reader, with every access checked against the buffer,
and the host's parser. A pointer into the buffer is the list of the bytes from it on; a text is
the bytes of its UTF-8 form. -/

namespace VitaDebugger.SfoTitle
open AgentProtocol AsciiText Fallible List TraceDecoder

inductive SfoError where
  | outOfBounds | limit | format | title
  | short | magic | tooMany | truncatedIndex | tableOffsets | valueMaximum | keyOffset
  | keyUnterminated | keyNotAscii | keyRepeated | valueRange | valueNotUtf8 | integerSize
  | titleId | contentId
  deriving DecidableEq

def readBytes (n : ℕ) (p : Bytes) : Except SfoError Bytes :=
  if n ≤ p.length then .ok (p.take n) else .error .outOfBounds

def readLe (n : ℕ) (p : Bytes) : Except SfoError ℕ :=
  (LittleEndian.number · 0 n) <$> readBytes n p

abbrev readU16Le : Bytes → Except SfoError ℕ := readLe 2

abbrev readU32Le : Bytes → Except SfoError ℕ := readLe 4

/-- Whether the byte is among the first `n`; nothing behind its first occurrence is read. -/
def memchr (c : UInt8) : ℕ → Bytes → Except SfoError Bool
  | 0, _ => .ok false
  | _ + 1, [] => .error .outOfBounds
  | n + 1, b :: rest => if b = c then .ok true else memchr c n rest

/-- Whether `strcmp` with a literal is zero; it stops at the first difference. -/
def strcmpZero : Bytes → Bytes → Except SfoError Bool
  | [], _ => .error .outOfBounds
  | b :: _, [] => .ok (b == 0)
  | b :: rest, c :: text => if b = c then strcmpZero rest text else .ok false

def titleKey : Bytes := ascii "TITLE_ID"

def sfoEntry (data : Bytes) (keyTable dataTable : ℕ) (found : Option Bytes)
    (index : ℕ) : Except SfoError (Option Bytes) := do
  let entry := data.drop (20 + index * 16)
  let keyOffset ← readU16Le entry
  let dataLength ← readU32Le (entry.drop 4)
  let dataOffset ← readU32Le (entry.drop 12)
  let keyPosition := keyTable + keyOffset
  let valuePosition := dataTable + dataOffset
  ensure (keyPosition < dataTable ∧ valuePosition ≤ data.length ∧
    dataLength ≤ data.length - valuePosition) .format
  let terminated ← memchr 0 (dataTable - keyPosition) (data.drop keyPosition)
  ensure (terminated = true) .format
  if ← strcmpZero (data.drop keyPosition) titleKey then
    let value := data.drop valuePosition
    ensure (found = none ∧ dataLength = 10) .title
    let last ← readBytes 1 (value.drop 9)
    ensure (last = [0]) .title
    let short ← memchr 0 9 value
    ensure (short = false) .title
    let titleId ← readBytes 9 value
    ensure (vdevIsTitleId titleId = true) .title
    pure (some titleId)
  else pure found

def vdevReadSfoTitleId (data : Bytes) : Except SfoError Bytes := do
  ensure (data.length ≤ 1024 * 1024) .limit
  ensure (20 ≤ data.length) .format
  let magic ← readU32Le data
  ensure (magic = 0x46535000) .format
  let keyTable ← readU32Le (data.drop 8)
  let dataTable ← readU32Le (data.drop 12)
  let entryCount ← readU32Le (data.drop 16)
  ensure (entryCount ≠ 0 ∧ entryCount ≤ 4096 ∧ 20 + entryCount * 16 ≤ data.length ∧
    keyTable < data.length ∧ dataTable < data.length ∧ keyTable < dataTable) .format
  let found ← (range entryCount).foldlM (sfoEntry data keyTable dataTable) none
  match found with
  | some titleId => pure titleId
  | none => throw .title

inductive SfoValue where
  | text (bytes : Bytes)
  | integer (value : ℕ)
  | raw (bytes : Bytes)
  deriving DecidableEq

abbrev SfoValues := List (Bytes × SfoValue)

structure SfoMetadata where
  titleId : Bytes
  contentId : Option Bytes
  values : SfoValues
  deriving DecidableEq

def slice (data : Bytes) (start stop : ℕ) : Bytes := (data.drop start).take (stop - start)

def checkedRange (start length total : ℕ) : Except SfoError Unit :=
  ensure (start ≤ total ∧ length ≤ total - start) .valueRange

def sfoValue (format length : ℕ) (raw : Bytes) : Except SfoError SfoValue :=
  if format = 0x0204 then do
    let raw := raw.takeWhile (· ≠ 0)
    ensure ((decodeUtf8 raw).isSome = true) .valueNotUtf8
    pure (.text raw)
  else if format = 0x0404 then do
    ensure (length = 4) .integerSize
    pure (.integer (← readU32Le raw))
  else pure (.raw raw)

def parseSfoEntry (data : Bytes) (keyOffset dataOffset : ℕ)
    (values : SfoValues) (index : ℕ) :
    Except SfoError SfoValues := do
  let entry := data.drop (20 + index * 16)
  let keyRel ← readU16Le entry
  let valueFormat ← readU16Le (entry.drop 2)
  let valueLen ← readU32Le (entry.drop 4)
  let valueMaxLen ← readU32Le (entry.drop 8)
  let valueRel ← readU32Le (entry.drop 12)
  ensure (valueLen ≤ valueMaxLen) .valueMaximum
  let keyStart := keyOffset + keyRel
  ensure (keyOffset ≤ keyStart ∧ keyStart < dataOffset) .keyOffset
  ensure (0 ∈ slice data keyStart dataOffset) .keyUnterminated
  let key := (slice data keyStart dataOffset).takeWhile (· ≠ 0)
  ensure (∀ c ∈ key, c < 128) .keyNotAscii
  ensure (key ≠ [] ∧ values.lookup key = none) .keyRepeated
  let valueStart := dataOffset + valueRel
  checkedRange valueStart valueLen data.length
  checkedRange valueStart valueMaxLen data.length
  let value ← sfoValue valueFormat valueLen (slice data valueStart (valueStart + valueLen))
  pure ((key, value) :: values)

def titleIdRe (text : Bytes) : Prop :=
  text.length = 9 ∧ ∀ c ∈ text, 65 ≤ c ∧ c ≤ 90 ∨ 48 ≤ c ∧ c ≤ 57

instance (text : Bytes) : Decidable (titleIdRe text) := inferInstanceAs (Decidable (_ ∧ _))

def contentKey : Bytes := ascii "CONTENT_ID"

def sfoContentId : Option SfoValue → Except SfoError (Option Bytes)
  | none => pure none
  | some (.text text) => do
    ensure ((∀ c ∈ text, c < 128) ∧ text.length ≤ 48 ∧ ∀ c ∈ text, 32 ≤ c ∧ c ≤ 126) .contentId
    pure (if text = [] then none else some text)
  | some _ => throw .contentId

def parseSfo (data : Bytes) : Except SfoError SfoMetadata := do
  ensure (20 ≤ data.length) .short
  ensure (data.take 4 = [0, 80, 83, 70]) .magic
  let keyOffset ← readU32Le (data.drop 8)
  let dataOffset ← readU32Le (data.drop 12)
  let count ← readU32Le (data.drop 16)
  ensure (count ≤ 4096) .tooMany
  let indexEnd := 20 + count * 16
  ensure (indexEnd ≤ data.length) .truncatedIndex
  ensure (indexEnd ≤ keyOffset ∧ keyOffset ≤ dataOffset ∧ dataOffset ≤ data.length) .tableOffsets
  let values ← (range count).foldlM (parseSfoEntry data keyOffset dataOffset) []
  match values.lookup titleKey with
  | some (.text titleId) =>
    ensure (titleIdRe titleId) .titleId
    let contentId ← sfoContentId (values.lookup contentKey)
    pure ⟨titleId, contentId, values⟩
  | _ => throw .titleId

/-- No access of the run leaves the buffer. -/
def Inside {α : Type} (run : Except SfoError α) : Prop := run ≠ .error .outOfBounds

section
variable {α β : Type} {data p : Bytes}

theorem inside_bind {f : Except SfoError α} {next : α → Except SfoError β}
    (hf : Inside f) (hn : ∀ a, f = .ok a → Inside (next a)) : Inside (f >>= next) := by
  cases f with
  | error e => exact fun h => hf (congrArg Except.error (Except.error.inj h))
  | ok a => exact hn a rfl

theorem inside_ensure {c : Prop} [Decidable c] {e : SfoError}
    {next : Unit → Except SfoError β} (he : e ≠ .outOfBounds)
    (hn : c → Inside (next ())) : Inside (ensure c e >>= next) := by
  refine inside_bind ?_ fun _ h => hn (ensure_ok.1 h)
  unfold ensure
  split
  · exact nofun
  · exact fun h => he (Except.error.inj h)

theorem readBytes_inside {n : ℕ} (hn : n ≤ p.length) : Inside (readBytes n p) := by
  simp [Inside, readBytes, hn]

theorem readLe_inside {n : ℕ} (hn : n ≤ p.length) : Inside (readLe n p) := by
  simp [Inside, readLe, readBytes, hn]

theorem memchr_eq (c : UInt8) (n : ℕ) (hn : n ≤ p.length) :
    memchr c n p = .ok (decide (c ∈ p.take n)) := by
  induction n generalizing p with
  | zero => simp [memchr]
  | succ n ih =>
    cases p with
    | nil => simp at hn
    | cons b rest =>
      rw [memchr, ih (by simpa using hn)]
      by_cases hb : b = c
      · simp [hb]
      · simp [hb, Ne.symm hb]

/-- A terminated key is compared inside its area, and the text before its zero is what counts. -/
theorem strcmpZero_eq {t : Bytes} {n : ℕ} (hp : 0 ∈ p.take n) (ht : 0 ∉ t) :
    strcmpZero p t = .ok (decide ((p.take n).takeWhile (· ≠ 0) = t)) := by
  induction p generalizing n t with
  | nil => simp at hp
  | cons b rest ih =>
    cases n with
    | zero => simp at hp
    | succ n =>
      cases t with
      | nil => by_cases hb : b = 0 <;> simp [strcmpZero, hb]
      | cons c t =>
        simp only [mem_cons, not_or] at ht
        by_cases hb : b = c
        · subst hb
          have hr : 0 ∈ rest.take n := by simpa [ht.1] using hp
          simp [strcmpZero, ih hr ht.2, Ne.symm ht.1]
        · by_cases hz : b = 0
          · simp [strcmpZero, hz, ht.1]
          · simp [strcmpZero, hb, hz]

theorem sfoEntry_inside {keyTable dataTable i : ℕ} {f : Option Bytes}
    (hd : dataTable < data.length) (hi : 20 + (i + 1) * 16 ≤ data.length) :
    Inside (sfoEntry data keyTable dataTable f i) := by
  refine inside_bind (readLe_inside (by simp; omega)) fun ko _ => ?_
  refine inside_bind (readLe_inside (by simp; omega)) fun dataLength _ => ?_
  refine inside_bind (readLe_inside (by simp; omega)) fun dataOffset _ => ?_
  refine inside_ensure nofun fun ⟨hk, hv, hl⟩ => ?_
  have hm := memchr_eq (p := data.drop (keyTable + ko)) 0
    (dataTable - (keyTable + ko)) (by simp; omega)
  refine inside_bind (by rw [hm]; exact nofun) fun terminated hb => ?_
  refine inside_ensure nofun fun ht => ?_
  rw [hm, ht, Except.ok.injEq, decide_eq_true_iff] at hb
  rw [strcmpZero_eq hb (by decide)]
  refine inside_bind nofun fun iti _ => ?_
  cases iti with
  | false => exact nofun
  | true =>
    refine inside_ensure nofun fun ⟨_, hs⟩ => ?_
    refine inside_bind (readBytes_inside (by simp; omega)) fun last _ => ?_
    refine inside_ensure nofun fun _ => ?_
    refine inside_bind (by rw [memchr_eq 0 9 (by simp; omega)]; exact nofun) fun short _ => ?_
    refine inside_ensure nofun fun _ => ?_
    refine inside_bind (readBytes_inside (by simp; omega)) fun titleId _ => ?_
    exact inside_ensure nofun fun _ => nofun

theorem foldlM_inside {step : β → ℕ → Except SfoError β} {its : List ℕ} {s : β}
    (hs : ∀ i ∈ its, ∀ s, Inside (step s i)) : Inside (its.foldlM step s) := by
  induction its generalizing s with
  | nil => exact nofun
  | cons i rest ih =>
    exact inside_bind (hs i (by simp) s) fun _ _ => ih fun j hj => hs j (by simp [hj])

theorem vdevReadSfoTitleId_inside (data : Bytes) : Inside (vdevReadSfoTitleId data) := by
  refine inside_ensure nofun fun _ => inside_ensure nofun fun hs => ?_
  refine inside_bind (readLe_inside (by omega)) fun magic _ => inside_ensure nofun fun _ => ?_
  refine inside_bind (readLe_inside (by simp; omega)) fun keyTable _ => ?_
  refine inside_bind (readLe_inside (by simp; omega)) fun dataTable _ => ?_
  refine inside_bind (readLe_inside (by simp; omega)) fun entryCount _ => ?_
  refine inside_ensure nofun fun ⟨_, _, hi, _, hd, _⟩ => ?_
  refine inside_bind (foldlM_inside fun i hm f => ?_) fun f _ => ?_
  · have := mem_range.1 hm
    exact sfoEntry_inside hd (by omega)
  · cases f <;> exact nofun

/-- What the agent has found so far is the title the host has read so far. -/
def Agree (found : Option Bytes) (values : SfoValues) : Prop :=
  match found with
  | none => values.lookup titleKey = none
  | some titleId => ∀ text, values.lookup titleKey = some (.text text) → text = titleId

theorem text_before_zero {n : ℕ} (hn : 0 ∉ p.take n) (hz : (p.drop n).take 1 = [0]) :
    (p.take (n + 1)).takeWhile (· ≠ 0) = p.take n := by
  rw [take_add, hz, takeWhile_append_of_pos]
  · simp
  · intro c hc
    simpa using ne_of_mem_of_not_mem hc hn

theorem readBytes_ok {n : ℕ} {bs : Bytes} (hr : readBytes n p = .ok bs) : bs = p.take n := by
  unfold readBytes at hr
  split at hr
  · exact (Except.ok.inj hr).symm
  · cases hr

theorem sfoValue_text {f l : ℕ} {raw text : Bytes}
    (hv : sfoValue f l raw = .ok (.text text)) : text = raw.takeWhile (· ≠ 0) := by
  unfold sfoValue at hv
  split_ifs at hv
  · obtain ⟨_, _, hv⟩ := bind_ok.1 hv
    exact (SfoValue.text.inj (Except.ok.inj hv)).symm
  · obtain ⟨_, _, hv⟩ := bind_ok.1 hv
    obtain ⟨_, _, hv⟩ := bind_ok.1 hv
    cases hv
  · cases hv

theorem agree_entry {keyTable dataTable i : ℕ} {f f' : Option Bytes}
    {vs values' : SfoValues} (ha : Agree f vs)
    (hc : sfoEntry data keyTable dataTable f i = .ok f')
    (hp : parseSfoEntry data keyTable dataTable vs i = .ok values') :
    Agree f' values' := by
  simp only [sfoEntry, bind_ok, ensure_ok] at hc
  obtain ⟨keyOffset, hk, length, hl, offset, ho, _, hr, _, hm, _, rfl, isTitle, hs, hc⟩ := hc
  simp only [parseSfoEntry, checkedRange, bind_ok, ensure_ok, hk, hl, ho, Except.ok.injEq] at hp
  obtain ⟨_, rfl, format, -, _, rfl, _, -, _, rfl, _, -, _, -, _, hz, _, -, _, -, _, -, _, -,
    value, hv, hp⟩ := hp
  cases hp
  unfold slice at hz hv ⊢
  rw [strcmpZero_eq hz (by decide), Except.ok.injEq] at hs
  cases isTitle with
  | false =>
    cases hc
    have hn := beq_false_of_ne (Ne.symm (of_decide_eq_false hs))
    cases f with
    | none => simpa only [Agree, lookup_cons, hn, cond_false] using ha
    | some titleId => simpa only [Agree, lookup_cons, hn, cond_false] using ha
  | true =>
    simp only [if_true, bind_ok, ensure_ok] at hc
    obtain ⟨_, ⟨-, rfl⟩, last, hb, _, rfl, short, hm', _, rfl, titleId, ht, _, -, hc⟩ := hc
    cases hc
    intro text hl
    rw [of_decide_eq_true hs, lookup_cons_self] at hl
    cases hl
    rw [memchr_eq 0 9 (by simp; omega), Except.ok.injEq, decide_eq_false_iff_not] at hm'
    rw [readBytes_ok ht, sfoValue_text hv, Nat.add_sub_cancel_left]
    exact text_before_zero hm' (readBytes_ok hb).symm

theorem foldlM_agree {keyTable dataTable : ℕ} {its : List ℕ}
    {f f' : Option Bytes} {vs values' : SfoValues}
    (ha : Agree f vs)
    (hc : its.foldlM (sfoEntry data keyTable dataTable) f = .ok f')
    (hp : its.foldlM (parseSfoEntry data keyTable dataTable) vs = .ok values') :
    Agree f' values' := by
  induction its generalizing f vs with
  | nil =>
    cases hc
    cases hp
    exact ha
  | cons i rest ih =>
    rw [foldlM_cons, bind_ok] at hc hp
    obtain ⟨_, hc, hr⟩ := hc
    obtain ⟨_, hp, hs⟩ := hp
    exact ih (agree_entry ha hc hp) hr hs
end

theorem sfo_title_agreement (data : Bytes) : vdevReadSfoTitleId data ≠ .error .outOfBounds ∧
      ∀ titleId metadata, vdevReadSfoTitleId data = .ok titleId →
        parseSfo data = .ok metadata → metadata.titleId = titleId := by
  refine ⟨vdevReadSfoTitleId_inside data, fun titleId metadata hc hp => ?_⟩
  simp only [vdevReadSfoTitleId, bind_ok, ensure_ok] at hc
  obtain ⟨_, -, _, -, _, -, _, -, keyTable, hk, dataTable, hd, count, hn, _, -, found, hf, hc⟩ := hc
  simp only [parseSfo, bind_ok, ensure_ok, hk, hd, hn, Except.ok.injEq] at hp
  obtain ⟨_, -, _, -, _, rfl, _, rfl, _, rfl, _, -, _, -, _, -, values, hv, hp⟩ := hp
  have ha := foldlM_agree (show Agree none [] from rfl) hf hv
  cases found with
  | none => cases hc
  | some title =>
    cases hc
    cases hl : values.lookup titleKey with
    | none =>
      rw [hl] at hp
      cases hp
    | some v =>
      rw [hl] at hp
      cases v with
      | text text =>
        simp only [bind_ok] at hp
        obtain ⟨_, -, _, -, hp⟩ := hp
        cases hp
        exact ha _ hl
      | integer v => cases hp
      | raw bytes => cases hp

/-- A number, the title and the title ID. -/
def sampleSfo : Bytes :=
  [0, 80, 83, 70, 1, 1, 0, 0, 68, 0, 0, 0, 93, 0, 0, 0, 3, 0, 0, 0] ++
    [0, 0, 4, 4, 4, 0, 0, 0, 4, 0, 0, 0, 0, 0, 0, 0] ++
    [10, 0, 4, 2, 5, 0, 0, 0, 8, 0, 0, 0, 4, 0, 0, 0] ++
    [16, 0, 4, 2, 10, 0, 0, 0, 10, 0, 0, 0, 12, 0, 0, 0] ++
    ascii "ATTRIBUTE" ++ [0] ++ ascii "TITLE" ++ [0] ++ titleKey ++ [0] ++
    [2, 0, 0, 0] ++ ascii "Demo" ++ [0, 0, 0, 0] ++ ascii "ABCD00001" ++ [0]

def sampleValues : SfoValues :=
  [(titleKey, .text (ascii "ABCD00001")), (ascii "TITLE", .text (ascii "Demo")),
    (ascii "ATTRIBUTE", .integer 2)]

theorem sfo_title_agreement_sample :
    ∃ titleId metadata, vdevReadSfoTitleId sampleSfo = .ok titleId ∧
    parseSfo sampleSfo = .ok metadata ∧ metadata.titleId = titleId := by
  have hc : vdevReadSfoTitleId sampleSfo = .ok (ascii "ABCD00001") := by decide +kernel
  have hp : parseSfo sampleSfo = .ok ⟨ascii "ABCD00001", none, sampleValues⟩ := by decide +kernel
  exact ⟨_, _, hc, hp, (sfo_title_agreement sampleSfo).2 _ _ hc hp⟩

end VitaDebugger.SfoTitle
