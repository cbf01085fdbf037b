import Mathlib.Data.List.Chain
import VitaDebugger.DeployRecords
import VitaDebugger.ManifestAgreement

/-! `parse_request` and `parse_manifest` of the deployment host: what they accept is the canonical
form of what they return, and the agent reads the same fields out of it. -/

namespace VitaDebugger.CanonicalRecords
open AgentProtocol AsciiText BrokerRecords BrokerRequests DeployRecords Fallible List
open HostManifest (ManifestEntry Manifest HostError manifestHeader manifestRowText casefold
  normalizePackagePath)
open BrokerHost (Values)
open LowerHex ManifestAgreement ManifestParse PackagePaths TerminatedLines

section Host

/-- The number a text is the only decimal of, or the message. -/
def uintOr (value : Bytes) (message : String) : Except String ℕ := do
  ensure (value = [48] ∨ PositiveDigits value) message
  pure (decimalValue value)

/-- `_canonical_uint` of `protocol.py`. -/
def canonicalUint (value : Bytes) (label : String) : Except String ℕ :=
  uintOr value (label ++ " is not canonical unsigned decimal")

/-- `_canonical_uint` of `manifest.py`. -/
def manifestUint (text : Bytes) (label : String) : Except String ℕ :=
  uintOr text (label ++ " is not a canonical unsigned decimal integer")

def requestHeader : String := "VITADEVDEPLOY-REQUEST-1"

def requestKeys : List String :=
  ["job", "nonce", "action", "title_id", "manifest_sha256", "file_count", "total_size"]

structure Request where
  job : Bytes
  nonce : Bytes
  action : Bytes
  titleId : Bytes
  manifestSha256 : Bytes
  fileCount : ℕ
  totalSize : ℕ
  deriving DecidableEq

def Request.values (request : Request) : List Bytes :=
  [request.job, request.nonce, request.action, request.titleId, request.manifestSha256,
    decimal request.fileCount, decimal request.totalSize]

/-- `Request.data`. -/
def Request.data (request : Request) : Bytes :=
  recordText (ascii requestHeader) (requestKeys.map ascii) request.values

def parseRequest (data : Bytes) : Except String Request := do
  let lines ← decodeLines data requestHeader 1024
  let values ← fixedFields lines requestKeys "request"
  let fileCount ← canonicalUint (values.get "file_count") "file_count"
  let totalSize ← canonicalUint (values.get "total_size") "total_size"
  validateHex (values.get "job") 32 "job id"
  validateHex (values.get "nonce") 64 "nonce"
  validateTitleId (values.get "title_id")
  validateHex (values.get "manifest_sha256") 64 "SHA-256"
  ensure (values.get "action" ∈ [ascii "verify", ascii "install", ascii "install_launch"])
    "unsupported deployment action"
  pure ⟨values.get "job", values.get "nonce", values.get "action", values.get "title_id",
    values.get "manifest_sha256", fileCount, totalSize⟩

structure Rows where
  entries : List ManifestEntry
  seen : List Bytes
  totalSize : ℕ

/-- A row; the text of a refused path is that of its `VpkValidationError`. -/
def parseRow (rows : Rows) (row : Bytes) : Except (HostError ⊕ String) Rows :=
  match row.splitOn 9 with
  | [digest, sizeText, path] => do
    (validateHex digest 64 "SHA-256").mapError .inr
    let size ← (manifestUint sizeText "manifest file size").mapError .inr
    ensure (size ≤ 256 * 1024 * 1024) (.inr "manifest file exceeds the per-file size limit")
    let normalized ← (normalizePackagePath path).mapError .inl
    ensure (normalized.value = path) (.inr "manifest path is not canonical")
    ensure (normalized.collisionKey ∉ rows.seen)
      (.inr "manifest contains a case-folded path collision")
    ensure (∀ entry ∈ rows.entries.getLast?, entry.path < path)
      (.inr "manifest rows are not strictly sorted by path")
    ensure (rows.totalSize + size ≤ 1024 * 1024 * 1024)
      (.inr "manifest exceeds the total-size limit")
    ensure (rows.entries.length + 1 ≤ 8192) (.inr "manifest exceeds the file-count limit")
    pure ⟨rows.entries ++ [⟨digest, size, path⟩], normalized.collisionKey :: rows.seen,
      rows.totalSize + size⟩
  | _ => throw (.inr "manifest row does not contain exactly three tab-separated fields")

def parseManifest (sha256 : Bytes → Bytes) (data : Bytes) :
    Except (HostError ⊕ String) Manifest := do
  ensure (data.take manifestHeader.length = manifestHeader ∧ data.length ≤ 4 * 1024 * 1024)
    (.inr "manifest header or size is invalid")
  ensure (data.getLast? = some 10) (.inr "manifest must end with LF")
  let text := data.drop manifestHeader.length
  ensure (∀ c ∈ text, c < 128) (.inr "manifest is not ASCII")
  let rows ← (splitlines [] text).foldlM parseRow ⟨[], [], 0⟩
  pure ⟨data, rows.entries, rows.entries.length, rows.totalSize, encode (sha256 data)⟩

end Host

theorem uintOr_ok {value : Bytes} {message : String} {n : ℕ}
    (hc : uintOr value message = .ok n) : decimal n = value := by
  simp only [uintOr, bind_ok, ensure_ok] at hc
  obtain ⟨_, hv, hr⟩ := hc
  cases hr
  refine decimal_decimalValue ?_
  rcases hv with rfl | ⟨hn, hh, hd⟩
  · exact ⟨cons_ne_nil _ _, forall_mem_singleton.mpr (by decide), .inl rfl⟩
  · exact ⟨hn, hd, .inr hh⟩

section Requests
variable {data : Bytes}

theorem next_append {line rest : Bytes} (hp : ∀ c ∈ line, c ≠ 10 ∧ c ≠ 13 ∧ c ≠ 0) :
    AgentProtocol.next (line ++ 10 :: rest) = .ok (line, rest) := by
  rw [AgentProtocol.next, nextLine_append hp]

variable {name key value rest : Bytes}

theorem next_field (hk : ∀ c ∈ key, c ≠ 10 ∧ c ≠ 13 ∧ c ≠ 0)
    (hv : ∀ c ∈ value, c ≠ 10 ∧ c ≠ 13 ∧ c ≠ 0) :
    AgentProtocol.next (fieldLine key value ++ 10 :: rest) = .ok (fieldLine key value, rest) := by
  refine next_append fun c hi => ?_
  rcases mem_append.mp hi with hi | hi
  · exact hk c hi
  · rcases mem_cons.mp hi with rfl | hi
    · decide
    · exact hv c hi

/-- The key with its sign is found, and the value stands behind it. -/
theorem fieldLine_value (hk : name = key ++ [61]) (hn : value ≠ []) :
    ¬((fieldLine key value).length ≤ name.length ∨ (fieldLine key value).take name.length ≠ name) ∧
      (fieldLine key value).drop name.length = value := by
  have hl := length_pos_of_ne_nil hn
  have he : fieldLine key value = name ++ value := by simp [fieldLine, hk]
  rw [he, take_left, drop_left, length_append, not_or]
  exact ⟨⟨by omega, not_not.mpr rfl⟩, rfl⟩

theorem copyValue_field {size : ℕ} (hk : name = key ++ [61]) (hn : value ≠ [])
    (hs : value.length + 1 ≤ size) : copyValue (fieldLine key value) name size = some value := by
  obtain ⟨hf, hd⟩ := fieldLine_value hk hn
  have hl : (fieldLine key value).length - name.length = value.length := by rw [← length_drop, hd]
  rw [copyValue, hl, if_neg, hd]
  rw [← or_assoc, not_or]
  exact ⟨hf, by omega⟩

theorem valueOr_field {size : ℕ} {v : Bytes → Bool} {e : VdevError}
    (hk : name = key ++ [61]) (hn : value ≠ []) (hs : value.length + 1 ≤ size)
    (hv : v value = true) :
    valueOr (copyValue (fieldLine key value) name size) v e = .ok value := by
  rw [copyValue_field hk hn hs, valueOr, if_pos hv]

theorem parseDecimalLine_field {n : ℕ} (hk : name = key ++ [61]) (hs : n ≤ uint64Max) :
    parseDecimalLine (fieldLine key (decimal n)) name = .ok n := by
  obtain ⟨hf, hd⟩ := fieldLine_value hk (decimal_ne_nil n)
  rw [parseDecimalLine, if_neg hf, hd, parseDecimal_decimal hs]

def actionText : VdevAction → Bytes
  | .verify => ascii "verify"
  | .install => ascii "install"
  | .installLaunch => ascii "install_launch"

/-- The agent's request in the host's form. -/
def hostRequest (request : VdevRequest) : Request :=
  ⟨request.job, request.nonce, actionText request.action, request.titleId,
    encode request.manifestSha256, request.fileCount, request.totalSize⟩

/-- What the host checks of a request. -/
structure Checked (request : Request) : Prop where
  job : request.job.length = 32 ∧ ∀ c ∈ request.job, IsHex c
  nonce : request.nonce.length = 64 ∧ ∀ c ∈ request.nonce, IsHex c
  action : request.action ∈ [ascii "verify", ascii "install", ascii "install_launch"]
  digest : request.manifestSha256.length = 64 ∧ ∀ c ∈ request.manifestSha256, IsHex c
  short : request.data.length ≤ 1024
  filled : ∀ value ∈ request.values, value ≠ []
  plain : ∀ value ∈ request.values, ∀ c ∈ value, c ≠ 10 ∧ c ≠ 13 ∧ c ≠ 0

/-- The values of an accepted request are printable. -/
theorem parseRequest_values {r : Request} (hp : parseRequest data = .ok r) :
    ∀ value ∈ r.values, ∀ c ∈ value, 0x20 ≤ c := by
  simp only [parseRequest, validateHex, validateTitleId, bind_ok, ensure_ok] at hp
  obtain ⟨_, -, fields, -, count, -, size, -, _, job, _, nonce, _, title, _, digest, _, action,
    hr⟩ := hp
  cases hr
  have hex : ∀ c, IsHex c → 0x20 ≤ c := by decide +kernel
  have digit (n : ℕ) : ∀ c ∈ decimal n, 0x20 ≤ c := fun c mem => (decimal_bytes n c mem).1
  have named : ∀ c ∈ fields.get "title_id", 0x20 ≤ c := by
    simp only [vdevIsTitleId, Bool.and_eq_true, all_eq_true] at title
    exact fun c mem => (by decide +kernel : ∀ c : UInt8,
      decide (65 ≤ c ∧ c ≤ 90 ∨ 48 ≤ c ∧ c ≤ 57) = true → 0x20 ≤ c) c (title.2 c mem)
  have verb : ∀ c ∈ fields.get "action", 0x20 ≤ c :=
    (by decide +kernel : ∀ text ∈ [ascii "verify", ascii "install", ascii "install_launch"],
      ∀ c ∈ text, (0x20 : UInt8) ≤ c) _ action
  simp only [Request.values, forall_mem_cons]
  exact ⟨fun c mem => hex c (job.2 c mem), fun c mem => hex c (nonce.2 c mem), verb, named,
    fun c mem => hex c (digest.2 c mem), digit count, digit size, by simp⟩

theorem printable_unbroken : ∀ c : UInt8, c = 9 ∨ c = 10 ∨ 0x20 ≤ c →
    isBoundary c = true → c = 10 := by
  decide +kernel

theorem request_unbroken {r : Request} (values : ∀ value ∈ r.values, ∀ c ∈ value, 0x20 ≤ c) :
    ∀ c ∈ r.data, isBoundary c = true → c = 10 := by
  intro c mem
  refine printable_unbroken c (@recordText_bytes _ _ (fun c => c = 9 ∨ c = 10 ∨ 0x20 ≤ c) _
    (by decide) (by decide) (by decide +kernel) (by decide +kernel) ?_ c mem)
  exact fun value hi c hc => .inr (.inr (values value hi c hc))

theorem seven_values : ∀ {vs : List Bytes}, vs.length = 7 →
    ∃ j n a t d x y, vs = [j, n, a, t, d, x, y]
  | [j, n, a, t, d, x, y], _ => ⟨j, n, a, t, d, x, y, rfl⟩

theorem parseRequest_ok {r : Request} (hb : ∀ c ∈ data, isBoundary c = true → c = 10)
    (hp : parseRequest data = .ok r) : data = r.data ∧ Checked r := by
  simp only [parseRequest, validateHex, validateTitleId, bind_ok, ensure_ok] at hp
  obtain ⟨ls, hd, fields, hf, cn, hc, size, hs, _, hj, _, hn, _, ht, _, hm, _, ha, hr⟩ := hp
  obtain ⟨hl, hz, -, vs, hk, hv, hw, htx, rfl⟩ :=
    (fields_ok (by decide) (by decide) hb).mp ⟨ls, hd, hf⟩
  simp only [get_zip hk] at hc hs hj hn ht hm ha hr
  obtain ⟨j, n, a, t, d, x, y, rfl⟩ := seven_values hk
  obtain rfl : decimal cn = x := uintOr_ok hc
  obtain rfl : decimal size = y := uintOr_ok hs
  cases hr
  refine ⟨htx, hj, hn, ha, hm, by rw [htx] at hl; exact hl, hv, fun value hi c hc => ?_⟩
  have hm : c ∈ data := by
    obtain ⟨key, hl⟩ := @exists_fieldLine (requestKeys.map ascii) _ _ hk hi
    rw [htx, recordText, unlines]
    exact mem_flatMap.mpr ⟨_, mem_cons_of_mem _ hl, by simp [fieldLine, hc]⟩
  refine ⟨fun h => hw value hi (h ▸ hc), fun h => ?_, fun h => hz (h ▸ hm)⟩
  exact absurd (hb c hm (by rw [h]; decide)) (by rw [h]; decide)

/-- The agent takes a checked request within its limits. -/
theorem vdevParseRequest_ok {ts : TitleConfig} {request : Request} (hr : Checked request)
    (hn : request.fileCount ≠ 0) (hc : request.fileCount ≤ vdevMaxFiles)
    (hs : request.totalSize ≤ vdevMaxTotalSize)
    (ht : vdevIsAllowedTargetTitleId ts request.titleId = true) :
    ∃ p, vdevParseRequest ts request.data = .ok p ∧ hostRequest p = request := by
  obtain ⟨j, n, a, t, e, count, size⟩ := request
  obtain ⟨hj, hno, ha, he, hl, hf, hp⟩ := hr
  dsimp only at *
  obtain ⟨d, -, rfl⟩ := exists_encode (n := 32) he.1 he.2
  simp only [Request.values, forall_mem_cons] at hf hp
  have hh (text : Bytes) (k : ℕ) (h : text.length = k ∧ ∀ c ∈ text, IsHex c) :
      vdevIsLowerHex text k = true := by
    simpa [vdevIsLowerHex] using ⟨h.2, h.1⟩
  have htl : t.length = 9 := by
    simp only [vdevIsAllowedTargetTitleId, vdevIsTitleId, Bool.and_eq_true, decide_eq_true_eq] at ht
    exact ht.1.1.1
  have hz : (Request.data ⟨j, n, a, t, encode d, count, size⟩).length ≠ 0 := by
    simp [Request.data, recordText, unlines]
  obtain ⟨action, hx, rfl, hal⟩ : ∃ action, parseAction a = some action ∧ actionText action = a ∧
      a.length ≤ 31 := by
    simp only [mem_cons, not_mem_nil, or_false] at ha
    rcases ha with rfl | rfl | rfl
    · exact ⟨.verify, by decide, rfl, by decide⟩
    · exact ⟨.install, by decide, rfl, by decide⟩
    · exact ⟨.installLaunch, by decide, rfl, by decide⟩
  refine ⟨⟨j, n, action, t, d, count, size⟩, ?_, rfl⟩
  simp only [vdevParseRequest, bind_ok, require_ok]
  refine ⟨(), ⟨hz, by unfold vdevRequestMax; omega⟩, ?_⟩
  simp only [Request.data, recordText, requestKeys, map_cons, map_nil, Request.values,
    zipWith_cons_cons, zipWith_nil_left, unlines_cons]
  refine ⟨_, next_append (by decide +kernel), (), rfl,
    _, next_field (by decide +kernel) hp.1, _,
    valueOr_field (by decide) hf.1 (by omega) (hh j 32 hj),
    _, next_field (by decide +kernel) hp.2.1, _,
    valueOr_field (by decide) hf.2.1 (by omega) (hh n 64 hno),
    _, next_field (by decide +kernel) hp.2.2.1, action, ?_,
    _, next_field (by decide +kernel) hp.2.2.2.1, _,
    valueOr_field (by decide) hf.2.2.2.1 (by omega) ht,
    _, next_field (by decide +kernel) hp.2.2.2.2.1, _,
    valueOr_field (by decide) hf.2.2.2.2.1 (by omega) (hh _ 64 he), d, ?_,
    _, next_field (by decide +kernel) hp.2.2.2.2.2.1, count,
    parseDecimalLine_field (by decide) (hc.trans (by decide)), (), ⟨hn, hc⟩,
    _, next_field (by decide +kernel) hp.2.2.2.2.2.2.1, size,
    parseDecimalLine_field (by decide) (hs.trans (by decide)), (), hs, (), rfl, rfl⟩
  · rw [actionOr, copyValue_field (by decide) hf.2.2.1 (by omega), Option.bind_some, hx]
  · rw [digestOr, decode_encode]

end Requests

section Manifests

theorem mapError_ok {ε δ α : Type} {run : Except ε α} {f : ε → δ} {value : α} :
    run.mapError f = .ok value ↔ run = .ok value := by
  cases run <;> simp [Except.mapError]

/-- The rows so far are those of these entries. -/
structure Holds (rows : Rows) (es : List VdevManifestEntry) : Prop where
  entries : rows.entries = es.map hostEntry
  seen : ∀ entry ∈ es, casefold entry.path ∈ rows.seen
  totalSize : rows.totalSize = sizes es
  acceptable : Acceptable es

theorem parseRow_holds {rows a : Rows} {row : Bytes} {es : List VdevManifestEntry}
    (hh : Holds rows es) (hp : parseRow rows row = .ok a) :
    ∃ e, row = rowLine e ∧ Holds a (es ++ [e]) := by
  unfold parseRow at hp
  split at hp
  · rename_i dg sizeText path hs
    simp only [validateHex, bind_ok, mapError_ok, ensure_ok] at hp
    obtain ⟨_, hd, size, hz, _, hm, normalized, hn, _, -, _, hc, _, ho, _, ht, _, hl, hp⟩ := hp
    obtain ⟨rfl, hv⟩ := normalizePackagePath_ok hn
    obtain ⟨d, he, rfl⟩ := exists_encode (n := 32) hd.1 hd.2
    cases hp
    refine ⟨⟨d, size, path, false⟩, ?_, ?_⟩
    · rw [← @intercalate_splitOn _ row _ _ 9, hs, ← uintOr_ok hz]
      simp [rowLine, intercalate]
    have ha := hh.acceptable
    have hx : sizes (es ++ [⟨d, size, path, false⟩]) = rows.totalSize + size := by
      simp [sizes, hh.totalSize]
    refine ⟨by simp [hh.entries, hostEntry], ?_, hx.symm, ?_⟩
    · simpa [or_imp, forall_and] using fun e hi => .inr (hh.seen e hi)
    have hi : es.length + 1 ≤ 8192 := by simpa [hh.entries] using hl
    exact
      { digest := by simpa [or_imp, forall_and] using ⟨ha.digest, he⟩
        fresh := by simpa [or_imp, forall_and] using ha.fresh
        valid := by simpa [or_imp, forall_and] using ⟨ha.valid, hv⟩
        small := by simpa [or_imp, forall_and] using ⟨ha.small, hm⟩
        distinct := pairwise_append.mpr ⟨ha.distinct, pairwise_singleton _ _, by
          intro o hi e hs he
          rw [mem_singleton.mp hs] at he
          exact hc (he ▸ hh.seen o hi)⟩
        ordered := isChain_iff_pairwise.mp (isChain_append.mpr
          ⟨isChain_iff_pairwise.mpr ha.ordered, .singleton _, by
            simpa [hh.entries, hostEntry] using ho⟩)
        count := by simpa using hi
        total := by rw [hx]; omega }
  · cases hp

theorem rows_hold {rows after : Rows} {ls : List Bytes} {es : List VdevManifestEntry}
    (hh : Holds rows es) (hp : ls.foldlM parseRow rows = .ok after) :
    ∃ a, ls = a.map rowLine ∧ Holds after (es ++ a) := by
  induction ls generalizing rows es with
  | nil =>
    cases hp
    exact ⟨[], rfl, by rwa [append_nil]⟩
  | cons line ls ih =>
    rw [foldlM_cons, bind_ok] at hp
    obtain ⟨mid, hr, hp⟩ := hp
    obtain ⟨e, rfl, hm⟩ := parseRow_holds hh hr
    obtain ⟨a, rfl, ha⟩ := ih hm hp
    exact ⟨e :: a, rfl, by simpa using ha⟩

theorem unlines_rows (es : List VdevManifestEntry) :
    unlines 10 (es.map rowLine) = es.flatMap rowText := by
  induction es with
  | nil => rfl
  | cons entry es ih => rw [map_cons, unlines_cons, ih, flatMap_cons, rowText_append]

theorem rows_unbroken {es : List VdevManifestEntry} (accepted : Acceptable es) :
    ∀ c ∈ manifestHeader ++ es.flatMap rowText, isBoundary c = true → c = 10 := by
  have header : ∀ c ∈ manifestHeader, isBoundary c = true → c = 10 := by decide +kernel
  refine forall_mem_append.mpr ⟨header, fun c mem => printable_unbroken c ?_⟩
  obtain ⟨entry, listed, mem⟩ := mem_flatMap.mp mem
  rw [← append_nil (rowText entry), rowText_append, mem_append, mem_singleton] at mem
  rcases mem with line | ending
  · exact (rowLine_bytes (accepted.valid entry listed) c line).elim .inl fun high =>
      .inr (.inr high)
  · exact .inr (.inl ending)

theorem parseManifest_ok {s : Bytes → Bytes} {data : Bytes} {m : Manifest}
    (hp : parseManifest s data = .ok m) :
    ∃ es, Acceptable es ∧ m.data = data ∧ m.entries = es.map hostEntry ∧ m.totalSize = sizes es ∧
      ((∀ c ∈ data, isBoundary c = true → c = 10) →
        data = manifestHeader ++ es.flatMap rowText) := by
  simp only [parseManifest, bind_ok, ensure_ok] at hp
  obtain ⟨_, ⟨hh, -⟩, _, hl, _, -, rows, hr, hp⟩ := hp
  cases hp
  have hs : data = manifestHeader ++ data.drop manifestHeader.length := by
    nth_rewrite 1 [← take_append_drop manifestHeader.length data]
    rw [hh]
  generalize data.drop manifestHeader.length = text at hs hr
  have he : Holds ⟨[], [], 0⟩ [] :=
    ⟨rfl, by simp, rfl, by simp, by simp, by simp, by simp, .nil, .nil, by simp, by simp [sizes]⟩
  obtain ⟨es, hx, ho⟩ := rows_hold he hr
  refine ⟨es, ho.acceptable, rfl, ho.entries, ho.totalSize, fun hb => ?_⟩
  rw [← unlines_rows, ← hx, hs]
  congr 1
  cases text with
  | nil => rfl
  | cons c text =>
    rw [hs, getLast?_append_of_ne_nil _ (cons_ne_nil _ _)] at hl
    rw [splitlines_lines hl fun c hi => hb c (hs ▸ mem_append_right _ hi), unlines_splitOn hl]

end Manifests

/-- An accepted record is canonical, and the agent reads the same out of it, exactly when LF is the
only line boundary in it. -/
theorem job_records_canonical (titles : TitleConfig) (sha256 : Bytes → Bytes)
    (data : Bytes) :
    (∀ request, parseRequest data = .ok request →
      ((data = request.data ∧ (request.fileCount ≠ 0 → request.fileCount ≤ vdevMaxFiles →
        request.totalSize ≤ vdevMaxTotalSize →
        vdevIsAllowedTargetTitleId titles request.titleId = true →
        ∃ parsed, vdevParseRequest titles data = .ok parsed ∧ hostRequest parsed = request)) ↔
      ∀ c ∈ data, isBoundary c = true → c = 10)) ∧
    (∀ manifest, parseManifest sha256 data = .ok manifest →
      ((manifest.data = data ∧ data = manifestHeader ++ manifest.entries.flatMap manifestRowText ∧
        (manifest.entries ≠ [] → ∃ parsed, vdevParseManifest data = .ok parsed ∧
          parsed.entries.map hostEntry = manifest.entries ∧
          parsed.totalSize = manifest.totalSize)) ↔
      ∀ c ∈ data, isBoundary c = true → c = 10)) := by
  constructor
  · intro request accepted
    constructor
    · rintro ⟨rfl, -⟩
      exact request_unbroken (parseRequest_values accepted)
    · intro plain
      obtain ⟨rfl, checked⟩ := parseRequest_ok plain accepted
      exact ⟨rfl, vdevParseRequest_ok checked⟩
  · intro manifest accepted
    obtain ⟨es, acceptable, same, entries, total, canonical⟩ := parseManifest_ok accepted
    rw [entries, flatMap_map]
    constructor
    · rintro ⟨-, rfl, -⟩
      exact rows_unbroken acceptable
    · intro plain
      refine ⟨same, canonical plain, fun listed => ⟨⟨es, sizes es⟩, ?_, rfl, total.symm⟩⟩
      rw [canonical plain, vdevParseManifest_ok acceptable (by simpa using listed)]

def sampleRequest : Request :=
  ⟨sampleJob, replicate 64 98, ascii "verify", ascii "ABCD00001", replicate 64 99, 1, 20⟩

theorem job_records_canonical_sample : parseRequest sampleRequest.data = .ok sampleRequest ∧
    ∃ parsed, vdevParseRequest ⟨ascii "VDEVDEP01", []⟩ sampleRequest.data = .ok parsed ∧
      hostRequest parsed = sampleRequest := by
  have hp : parseRequest sampleRequest.data = .ok sampleRequest := by decide +kernel
  have canonical := ((job_records_canonical ⟨ascii "VDEVDEP01", []⟩ id _).1 _ hp).mpr
    (request_unbroken (parseRequest_values hp))
  exact ⟨hp, canonical.2 (by decide) (by decide) (by decide) (by decide)⟩

/-- The sample, with a vertical tab behind its header. -/
def tabbedRequest : Bytes := (sampleRequest.data.take 23) ++ 11 :: sampleRequest.data.drop 24

theorem tabbed_request_accepted : parseRequest tabbedRequest = .ok sampleRequest ∧
    tabbedRequest ≠ sampleRequest.data ∧
    vdevParseRequest ⟨ascii "VDEVDEP01", []⟩ tabbedRequest = .error .format := by
  decide +kernel

end VitaDebugger.CanonicalRecords
