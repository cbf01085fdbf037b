import VitaDebugger.BrokerAgreement
import VitaDebugger.PackagePaths

/-! The result of a deployment job, `result.c` of the agent, and `protocol.py` of the host, which
reads it. A `str` decoded from ASCII is its list of bytes; errors are the texts of
`ProtocolError`. -/

namespace VitaDebugger.DeployRecords
open AgentProtocol AsciiText BrokerHost Fallible List LowerHex TraceDecoder
open BrokerAgreement BrokerRecords BrokerRequests BrokerWire TerminatedLines
open PackagePaths (require_ok)

def resultHeader : String := "VITADEVDEPLOY-RESULT-1"

def resultKeys : List String := ["job", "state", "stage", "code", "title_id", "message"]

section Host

def isBoundary (c : UInt8) : Bool := decide (10 ≤ c ∧ c ≤ 13 ∨ 28 ≤ c ∧ c ≤ 30)

/-- `str.splitlines` on ASCII, with the line it stands in. -/
def splitlines (line : Bytes) : Bytes → List Bytes
  | [] => if line = [] then [] else [line]
  | 13 :: 10 :: rest => line :: splitlines [] rest
  | c :: rest => if isBoundary c then line :: splitlines [] rest else splitlines (line ++ [c]) rest

/-- Evaluates faster than the instance over the members. -/
scoped instance decidableAll {p : UInt8 → Prop} [DecidablePred p] (data : Bytes) :
    Decidable (∀ c ∈ data, p c) :=
  decidable_of_iff (data.all (fun c => decide (p c)) = true) (by simp)

def decodeLines (data : Bytes) (header : String) (maxSize : ℕ) : Except String (List Bytes) := do
  ensure (data.length ≤ maxSize) (header ++ " record is too large")
  ensure (data.getLast? = some 10 ∧ 13 ∉ data ∧ 0 ∉ data)
    (header ++ " record must use LF-only text and end with LF")
  ensure (∀ c ∈ data, c < 128) (header ++ " record is not ASCII")
  let lines := splitlines [] data
  ensure (lines.head? = some (ascii header)) ("invalid " ++ header ++ " header")
  pure lines

def fixedFields (lines : List Bytes) (keys : List String) (label : String) :
    Except String Values := do
  ensure (lines.length = keys.length + 1) (label ++ " contains missing or extra fields")
  parseLines label lines.tail keys

def PositiveDigits (digits : Bytes) : Prop :=
  digits ≠ [] ∧ digits.head? ≠ some 48 ∧ ∀ c ∈ digits, IsDigit c

instance (digits : Bytes) : Decidable (PositiveDigits digits) :=
  inferInstanceAs (Decidable (_ ∧ _))

def canonicalInt (value : Bytes) (label : String) : Except String ℤ :=
  if value = [48] then pure 0
  else do
    let negative := decide (value.head? = some 45)
    let digits := if negative then value.drop 1 else value
    ensure (PositiveDigits digits) (label ++ " is not canonical signed decimal")
    pure (if negative then -(decimalValue digits : ℤ) else decimalValue digits)

def validateHex (value : Bytes) (length : ℕ) (label : String) : Except String Unit :=
  ensure (value.length = length ∧ ∀ c ∈ value, IsHex c)
    (label ++ " must be exactly " ++ toString length ++ " lowercase hexadecimal characters")

def validateTitleId (value : Bytes) : Except String Unit :=
  ensure (vdevIsTitleId value = true)
    "TITLE_ID must be exactly nine uppercase ASCII letters or digits"

/-- `isascii`, `isalnum` without the underscores, and `lower` as on the text itself. -/
def StageToken (stage : Bytes) : Prop :=
  (∀ c ∈ stage, c < 128) ∧ stage.filter (· ≠ 95) ≠ [] ∧
    (∀ c ∈ stage.filter (· ≠ 95), IsDigit c ∨ 65 ≤ c ∧ c ≤ 90 ∨ 97 ≤ c ∧ c ≤ 122) ∧
    HostManifest.casefold stage = stage

instance (stage : Bytes) : Decidable (StageToken stage) := inferInstanceAs (Decidable (_ ∧ _))

def percentDecodeMessage (value : Bytes) : Except String String := do
  let output ← (percentBytes value).mapError ("result " ++ ·)
  match decodeUtf8 output with
  | none => throw "result message is not valid percent-encoded UTF-8"
  | some message => pure message

structure Result where
  job : Bytes
  state : Bytes
  stage : Bytes
  code : ℤ
  titleId : Bytes
  message : String
  deriving DecidableEq

def parseResult (data : Bytes) : Except String Result := do
  let lines ← decodeLines data resultHeader 4096
  let values ← fixedFields lines resultKeys "result"
  validateHex (values.get "job") 32 "job id"
  ensure (values.get "state" ∈ [ascii "success", ascii "failed"]) "result state is invalid"
  ensure (StageToken (values.get "stage")) "result stage must be a lowercase ASCII token"
  let code ← canonicalInt (values.get "code") "result code"
  ensure (-2 ^ 31 ≤ code ∧ code ≤ 2 ^ 31 - 1) "result code is outside int32 range"
  validateTitleId (values.get "title_id")
  let message ← percentDecodeMessage (values.get "message")
  ensure (¬(values.get "state" = ascii "success" ∧ code ≠ 0))
    "successful result must have code zero"
  ensure (¬(values.get "state" = ascii "failed" ∧ code = 0))
    "failed result must have a nonzero code"
  pure ⟨values.get "job", values.get "state", values.get "stage", code, values.get "title_id",
    message⟩

end Host

section Agent

def validStage (stage : Bytes) : Bool :=
  stage != [] && stage.all fun c => decide (97 ≤ c ∧ c ≤ 122 ∨ c = 95)

def percentEncode (outputSize : ℕ) (output : Bytes) : Bytes → Except VdevError Bytes
  | [] => .ok output
  | value :: rest =>
    let written := if vdIsPercentUnreserved value then [value]
      else [37, upperHex (value >>> 4), upperHex (value &&& 15)]
    if output.length + written.length + 1 > outputSize then .error .limit
    else percentEncode outputSize (output ++ written) rest

def signedDecimal (code : ℤ) : Bytes :=
  if code < 0 then 45 :: decimal code.natAbs else decimal code.natAbs

def resultState (success : Bool) : Bytes := ascii (if success then "success" else "failed")

def resultValues (job : Bytes) (success : Bool) (stage : Bytes) (code : Int32)
    (titleId encoded : Bytes) : List Bytes :=
  [job, resultState success, stage, signedDecimal code.toInt, titleId, encoded]

/-- The text of the result file, when the file can be written. -/
def vdevWriteResult (job : Bytes) (success : Bool) (stage : Bytes) (code : Int32)
    (titleId message : Bytes) : Except VdevError Bytes := do
  require (validStage stage = true ∧ vdevIsTitleId titleId = true) .internal
  let encoded ← percentEncode 512 [] message
  require ((ascii "ux0:data/VitaDevDeploy/results/" ++ job ++ ascii ".result").length < 768) .limit
  let text := recordText (ascii resultHeader) (resultKeys.map ascii)
    (resultValues job success stage code titleId encoded)
  require (text.length < 1024) .limit
  pure text

end Agent

section Lines
variable {data : Bytes}

theorem modifyHead_self (lines : List Bytes) : lines.modifyHead (fun x => x) = lines := by
  cases lines <;> rfl

theorem splitlines_splitOn {l : Bytes} (hl : data.getLast? = some 10)
    (hb : ∀ c ∈ data, isBoundary c = true → c = 10) :
    splitlines l data = (data.dropLast.splitOn 10).modifyHead (l ++ ·) := by
  fun_induction splitlines l data with
  | case1 => cases hl
  | case2 => cases hl
  | case3 l r => exact absurd (hb 13 mem_cons_self (by decide)) (by decide)
  | case4 l c r _ hc ih =>
    obtain rfl := hb c mem_cons_self hc
    cases r with
    | nil => simp [splitlines]
    | cons d r =>
      rw [ih (by simpa using hl) fun c hi => hb c (mem_cons_of_mem _ hi), dropLast_cons_cons,
        splitOn_cons_eq_if_modifyHead]
      simp [modifyHead_self]
  | case5 l c r _ hc ih =>
    have ho : c ≠ 10 := fun h => hc (by rw [h]; decide)
    cases r with
    | nil => simp_all
    | cons d r =>
      rw [ih (by simpa using hl) fun c hi => hb c (mem_cons_of_mem _ hi), dropLast_cons_cons,
        splitOn_cons_eq_if_modifyHead, if_neg (by simpa using ho), modifyHead_modifyHead]
      congr 1
      funext text
      simp

theorem splitlines_lines (hl : data.getLast? = some 10)
    (hb : ∀ c ∈ data, isBoundary c = true → c = 10) :
    splitlines [] data = data.dropLast.splitOn 10 := by
  simpa [modifyHead_self] using @splitlines_splitOn data [] hl hb

/-- A record whose only line boundaries are line feeds, and its fields. -/
theorem fields_ok {hd l : String} {ks : List String} {fs : Values} {ms : ℕ}
    (hh : 10 ∉ ascii hd) (hk : ∀ key ∈ ks.map ascii, 10 ∉ key)
    (hb : ∀ c ∈ data, isBoundary c = true → c = 10) :
    (∃ ls, decodeLines data hd ms = .ok ls ∧
      fixedFields ls ks l = .ok fs) ↔
    data.length ≤ ms ∧ 0 ∉ data ∧ (∀ c ∈ data, c < 128) ∧
      ∃ vs : List Bytes, vs.length = ks.length ∧ (∀ v ∈ vs, v ≠ []) ∧
        (∀ v ∈ vs, 10 ∉ v) ∧ data = recordText (ascii hd) (ks.map ascii) vs ∧
        fs = ks.zip vs := by
  simp only [decodeLines, fixedFields, bind_ok, ensure_ok]
  constructor
  · rintro ⟨_, ⟨_, hm, _, ⟨hl, _, hz⟩, _, ha, _, hf, hr⟩, _, hn, hp⟩
    cases hr
    rw [splitlines_lines hl hb] at hf hn hp
    exact ⟨hm, hz, ha, (splitOn_record hh hk hl).mp ⟨hf, hn, hp⟩⟩
  · rintro ⟨hm, hz, ha, vs, hv⟩
    have hl : data.getLast? = some 10 := by
      rw [hv.2.2.2.1]
      exact getLast?_unlines (cons_ne_nil _ _)
    obtain ⟨hf, hn, hp⟩ := (@splitOn_record l data _ _ _ hh hk hl).mpr ⟨vs, hv⟩
    have hc : 13 ∉ data := fun h => absurd (hb 13 h (by decide)) (by decide)
    rw [splitlines_lines hl hb]
    exact ⟨_, ⟨(), hm, (), ⟨hl, hc, hz⟩, (), ha, (), hf, rfl⟩, (), hn, hp⟩

end Lines

theorem percentEncode_eq {os : ℕ} {o m : Bytes}
    (hs : o.length + 1 ≤ os) : percentEncode os o m =
      if (o ++ quoteFromBytes m).length + 1 > os then .error .limit
      else .ok (o ++ quoteFromBytes m) := by
  induction m generalizing o with
  | nil => rw [percentEncode, quoteFromBytes, flatMap_nil, append_nil, if_neg (by omega)]
  | cons c m ih =>
    obtain ⟨hu, hh, hl, _⟩ := byte_escape c
    have hq : quoteFromBytes (c :: m) = (if vdIsPercentUnreserved c then [c]
        else [37, upperHex (c >>> 4), upperHex (c &&& 15)]) ++ quoteFromBytes m := by
      simp only [quoteFromBytes, flatMap_cons, hu, hh, hl]
    rw [percentEncode, hq, ← append_assoc]
    generalize (if vdIsPercentUnreserved c then [c] else _) = written
    simp only [length_append] at ih ⊢
    split
    · rw [if_pos (by omega)]
    · rw [ih (by rw [length_append]; omega), length_append]

theorem canonicalInt_signedDecimal {l : String} (c : ℤ) :
    canonicalInt (signedDecimal c) l = .ok c ∧ Filled (signedDecimal c) := by
  by_cases hc : c = 0
  · rw [hc]
    exact ⟨rfl, by decide⟩
  have hd : PositiveDigits (decimal c.natAbs) :=
    ⟨decimal_ne_nil _, decimal_head (by omega), decimal_digits _⟩
  unfold signedDecimal
  split
  · refine ⟨bind_ok.mpr ⟨(), ensure_ok.mpr hd, congrArg Except.ok ?_⟩, cons_ne_nil _ _,
      forall_mem_cons.mpr ⟨by decide, (decimal_filled _).2⟩⟩
    change -(decimalValue (decimal c.natAbs) : ℤ) = c
    rw [decimalValue_decimal]
    omega
  · have hz : decimal c.natAbs ≠ [48] := fun h => hd.2.1 (by rw [h]; rfl)
    have hm : (decimal c.natAbs).head? ≠ some 45 := fun h =>
      absurd (hd.2.2 45 (mem_of_head? h)) (by decide)
    refine ⟨?_, decimal_filled _⟩
    simp only [canonicalInt, hz, hm, decide_false, if_false, Bool.false_eq_true, bind_ok, ensure_ok,
      decimalValue_decimal]
    exact ⟨(), hd, congrArg Except.ok (by omega)⟩

theorem stage_token {s : Bytes} (hv : validStage s = true) (hl : ∃ c ∈ s, c ≠ 95) :
    StageToken s ∧ Filled s := by
  simp only [validStage, Bool.and_eq_true, bne_iff_ne, all_eq_true, decide_eq_true_eq] at hv
  obtain ⟨hn, hv⟩ := hv
  have hc : ∀ c : UInt8, 97 ≤ c ∧ c ≤ 122 ∨ c = 95 →
      c < 128 ∧ Printable c ∧ ¬(65 ≤ c ∧ c ≤ 90) := by
    decide +kernel
  refine ⟨⟨fun c hi => (hc c (hv c hi)).1, ?_, fun c hi => ?_, ?_⟩, hn,
    fun c hi => (hc c (hv c hi)).2.1⟩
  · obtain ⟨c, hi, ho⟩ := hl
    exact ne_nil_of_mem (mem_filter.mpr ⟨hi, by simpa using ho⟩)
  · obtain ⟨hi, ho⟩ := mem_filter.mp hi
    exact .inr (.inr ((hv c hi).resolve_right (by simpa using ho)))
  · exact (map_congr_left fun c hi => if_neg (hc c (hv c hi)).2.2).trans (map_id' _)

theorem wireByte_plain : ∀ {c : UInt8}, ¬(c ≠ 10 ∧ (c < 0x20 ∨ c > 0x7e)) →
    c ≠ 0 ∧ c < 128 ∧ (isBoundary c = true → c = 10) := by
  decide +kernel

theorem result_record_read (job stage titleId message text : Bytes) (success : Bool)
    (code : Int32) (shown : String)
    (written : vdevWriteResult job success stage code titleId message = .ok text)
    (jobId : vdevIsLowerHex job 32 = true) (letter : ∃ c ∈ stage, c ≠ 95) (filled : message ≠ [])
    (utf8 : decodeUtf8 message = some shown) (agreed : success = true ↔ code = 0) :
    parseResult text = .ok ⟨job, resultState success, stage, code.toInt, titleId, shown⟩ := by
  simp only [vdevWriteResult, bind_ok, require_ok,
    percentEncode_eq (show ([] : Bytes).length + 1 ≤ 512 by decide), nil_append] at written
  obtain ⟨_, ⟨hs, ht⟩, _, he, _, -, _, hn, hw⟩ := written
  split at he
  · cases he
  cases he
  replace hw := (Except.ok.inj hw).symm
  obtain ⟨hs, hsf⟩ := stage_token hs letter
  obtain ⟨hc, hcf⟩ := @canonicalInt_signedDecimal "result code" code.toInt
  simp only [vdevIsLowerHex, Bool.and_eq_true, all_eq_true, decide_eq_true_eq] at jobId
  have hjf : Filled job :=
    ⟨ne_nil_of_length jobId.2 (by decide), fun c hi => isHex_printable (jobId.1 c hi)⟩
  have hst : Filled (resultState success) := by cases success <;> decide
  have hf : ∀ v ∈ resultValues job success stage code titleId (quoteFromBytes message),
      Filled v := forall_iff_forall_mem.mp
    ⟨hjf, hst, hsf, hcf, title_filled ht, quote_filled filled⟩
  have hr := record_of_text (by rfl) (by decide) (by decide) hf hw (by rw [hw]; omega)
  have hp (c : UInt8) (hi : c ∈ text) := wireByte_plain ((wireByte_iff c).mpr (hr.printable c hi))
  obtain ⟨ls, hd, hl⟩ := (@fields_ok text resultHeader "result" resultKeys _ 4096 (by decide)
    (by decide) fun c hi => (hp c hi).2.2).mpr ⟨hr.frame, fun h => (hp 0 h).1 rfl,
      fun c hi => (hp c hi).2.1, _, rfl, hr.filled, hr.lines, hr.text, rfl⟩
  have hm : percentDecodeMessage (quoteFromBytes message) = .ok shown := by
    rw [percentDecodeMessage, percentBytes_quote]
    change (match decodeUtf8 message with | none => _ | some message => _) = _
    rw [utf8]
    rfl
  simp only [parseResult, validateHex, validateTitleId, bind_ok, ensure_ok]
  refine ⟨ls, hd, _, hl, ?_⟩
  simp only [get_zip (show (resultValues job success stage code titleId _).length =
    resultKeys.length from rfl)]
  refine ⟨(), ⟨jobId.2, jobId.1⟩, (), ?_, (), hs, _, hc, (), ?_, (), ht, _, hm, (), ?_, (), ?_, rfl⟩
  · change resultState success ∈ _
    cases success <;> decide
  · exact ⟨code.le_toInt, by have := code.toInt_lt; omega⟩
  · rintro ⟨hs, hz⟩
    cases success with
    | false => exact absurd (show resultState false = _ from hs) (by decide)
    | true => exact hz (by rw [agreed.mp rfl]; rfl)
  · rintro ⟨hs, hz⟩
    cases success with
    | false => exact absurd (agreed.mpr (Int32.toInt_inj.mp hz)) (by decide)
    | true => exact absurd (show resultState true = _ from hs) (by decide)

def sampleJob : Bytes := replicate 32 97

def sampleText (encoded : Bytes) : Bytes :=
  recordText (ascii resultHeader) (resultKeys.map ascii)
    (resultValues sampleJob false (ascii "sfo") (-20010) (ascii "ABCD00001") encoded)

/-- The blank of the message is written as an escape. -/
theorem result_record_read_failed :
    vdevWriteResult sampleJob false (ascii "sfo") (-20010) (ascii "ABCD00001") (ascii "no title") =
      .ok (sampleText (ascii "no%20title")) ∧
    parseResult (sampleText (ascii "no%20title")) =
      .ok ⟨sampleJob, ascii "failed", ascii "sfo", -20010, ascii "ABCD00001", "no title"⟩ := by
  have hw : vdevWriteResult sampleJob false (ascii "sfo") (-20010) (ascii "ABCD00001")
      (ascii "no title") = .ok (sampleText (ascii "no%20title")) := by decide +kernel
  exact ⟨hw, result_record_read _ _ _ _ _ _ _ "no title" hw (by decide) (by decide) (by decide)
    (by decide +kernel) (by decide)⟩

/-- What the host reads of a result that the agent writes. -/
def readBack (job : Bytes) (success : Bool) (stage : Bytes) (code : Int32)
    (message : Bytes) : Option (Except String Result) :=
  (vdevWriteResult job success stage code (ascii "ABCD00001") message).toOption.map parseResult

/-- Written and refused: an empty message, one that is not UTF-8, a stage without a letter, a job
that is not an identifier and a code with success. -/
theorem empty_message_refused :
    readBack sampleJob false (ascii "sfo") (-20010) [] =
      some (.error "result field message is empty") ∧
    readBack sampleJob false (ascii "sfo") (-20010) [0xff] =
      some (.error "result message is not valid percent-encoded UTF-8") ∧
    readBack sampleJob false (ascii "_") (-20010) (ascii "title") =
      some (.error "result stage must be a lowercase ASCII token") ∧
    readBack (ascii "job") false (ascii "sfo") (-20010) (ascii "title") =
      some (.error "job id must be exactly 32 lowercase hexadecimal characters") ∧
    readBack sampleJob true (ascii "sfo") 1 (ascii "title") =
      some (.error "successful result must have code zero") := by
  decide +kernel

end VitaDebugger.DeployRecords
