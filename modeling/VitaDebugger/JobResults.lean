import VitaDebugger.DeployRecords

/-! `process_job` of the agent: where a job ends and whether its end leaves a result, for which
`vdev_find_committed_job` passes over the job. Files can be read and written; what stands in them
and what the system's services answer is arbitrary. -/

namespace VitaDebugger.JobResults
open AgentProtocol AsciiText BrokerHost BrokerRecords DeployRecords Fallible List
open PackagePaths TerminatedLines

def vdevCode : VdevError → Int32
  | .oom => -20001
  | .format => -20002
  | .limit => -20003
  | .path => -20004
  | .hash => -20005
  | .extra => -20006
  | .missing => -20007
  | .signature => -20008
  | .trustKey => -20009
  | .title => -20010
  | .gate => -20011
  | .replay => -20012
  | .changed => -20013
  | .internal => -20014
  | .promoteResult => -20015
  | .promoteUnknown => -20016
  | .staleStage => -20017
  | .reporting => -20018
  | .network => -20019
  | .interrupted => -20020
  | .commitUnknown => -20021
  | .io code => Int32.ofInt code

def messageForCode : VdevError → String
  | .oom => "out of memory"
  | .format => "non-canonical or malformed input"
  | .limit => "configured safety limit exceeded"
  | .path => "unsafe or non-normalized path"
  | .hash => "SHA-256 mismatch"
  | .extra => "unexpected file or directory"
  | .missing => "required file or directory missing"
  | .signature => "Ed25519 signature rejected"
  | .trustKey => "trusted Ed25519 key not configured"
  | .title => "target title ID rejected"
  | .gate => "requested action is disabled at build time"
  | .replay => "job ID already has a committed result"
  | .changed => "staged input changed while being read"
  | .promoteResult => "Vita installer returned an unexpected result"
  | .promoteUnknown => "Vita installer outcome is unknown; do not retry automatically"
  | .staleStage => "a previous shallow installation stage still exists"
  | .reporting => "installation completed but durable reporting failed; do not retry"
  | .network => "direct TCP network operation failed"
  | .interrupted => "direct TCP transfer was interrupted before commit"
  | .commitUnknown => "direct TCP request commit outcome is uncertain"
  | _ => "Vita API or I/O failure"

section Selection

structure InboxItem where
  name : Bytes
  isDirectory : Bool
  hasRequest : Bool

def selectJob (results : List Bytes) (selected : Option Bytes) (item : InboxItem) : Option Bytes :=
  if item.isDirectory = false ∨ vdevIsLowerHex item.name 32 = false ∨ item.hasRequest = false ∨
      item.name ∈ results then selected
  else
    match selected with
    | none => some item.name
    | some name => if strcmp item.name name = .lt then some item.name else selected

/-- The smallest committed job without a result; `results` are the jobs that have one. -/
def vdevFindCommittedJob (results : List Bytes) (inbox : List InboxItem) : Option Bytes :=
  inbox.foldl (selectJob results) none

end Selection

section Job
variable (titles : TitleConfig) (sha256 : Bytes → Bytes)

/-- What a job meets besides its request; `journal` answers the writes to the journal in order. -/
structure JobCalls where
  layout : Except VdevError Unit
  manifest : Bytes
  signature : Bytes
  verifyJobSignature : Except VdevError Unit
  consumeChallenge : Except VdevError Unit
  journal : ℕ → Except VdevError Unit
  requiredPackageFiles : Except VdevError Unit
  verifyPackageTree : Except VdevError Unit
  readSfoTitleId : Except VdevError Bytes
  enableInstall : Bool
  staging : Except VdevError Unit
  promotePackage : Except VdevError Unit
  journalWarning : Bool
  cleanupWarning : Bool

/-- The title that parsing a request leaves in it: copied before it is checked. -/
def requestTitle (data : Bytes) : Bytes :=
  let line : Except VdevError Bytes := do
    require (data.length ≠ 0 ∧ data.length ≤ vdevRequestMax) .format
    let (header, data) ← next data
    require (header = ascii "VITADEVDEPLOY-REQUEST-1") .format
    let (line, data) ← next data
    let _ ← valueOr (copyValue line (ascii "job=") 33) (vdevIsLowerHex · 32) .format
    let (line, data) ← next data
    let _ ← valueOr (copyValue line (ascii "nonce=") 65) (vdevIsLowerHex · 64) .format
    let (line, data) ← next data
    let _ ← actionOr (copyValue line (ascii "action=") 32)
    let (line, _) ← next data
    pure line
  match line with
  | .ok line => (copyValue line (ascii "title_id=") 10).getD []
  | .error _ => []

/-- A step, whose failure carries the stage it belongs to. -/
def during {α : Type} (stage : String) (run : Except VdevError α) : Except (String × VdevError) α :=
  run.mapError (stage, ·)

def installedMessage (calls : JobCalls) (action : VdevAction) : String :=
  if calls.journalWarning then "installation completed; crash journal is incomplete"
  else if calls.cleanupWarning then "installation completed with a promoter cleanup warning"
  else if action = .installLaunch then "installation completed; host must launch"
  else "installation completed"

/-- The way of a job to its end: the title and the message of its success, or where it failed. -/
def runJob (calls : JobCalls) (jobId nonce requestData : Bytes) :
    Except (String × VdevError) (Bytes × String) := do
  during "layout" calls.layout
  during "request" (require (requestData.length ≤ vdevRequestMax) .limit)
  let request ← during "request" (vdevParseRequest titles requestData)
  during "request" (require (request.job = jobId) .format)
  during "request" (require (request.nonce = nonce) .signature)
  during "manifest" (require (calls.manifest.length ≤ vdevManifestMax) .limit)
  during "manifest" (require (sha256 calls.manifest = request.manifestSha256) .hash)
  let manifest ← during "manifest" (vdevParseManifest calls.manifest)
  during "manifest" (require (manifest.entries.length = request.fileCount ∧
    manifest.totalSize = request.totalSize) .format)
  during "signature" (require (calls.signature.length ≤ 64) .limit)
  during "signature" (require (calls.signature.length = 64) .signature)
  during "signature" calls.verifyJobSignature
  during "challenge" calls.consumeChallenge
  during "journal" (calls.journal 0)
  during "journal" (calls.journal 1)
  during "journal" (calls.journal 2)
  during "tree" calls.requiredPackageFiles
  during "tree" calls.verifyPackageTree
  during "journal" (calls.journal 3)
  let sfoTitle ← during "sfo" calls.readSfoTitleId
  during "sfo" (require (sfoTitle = request.titleId ∧
    vdevIsAllowedTargetTitleId titles sfoTitle = true) .title)
  if request.action = .verify then
    during "journal" (calls.journal 4)
    during "journal" (calls.journal 5)
    pure (request.titleId, "verification completed without installation")
  else
    during "gate" (require (calls.enableInstall = true) .gate)
    during "staging" calls.staging
    during "promote" calls.promotePackage
    pure (request.titleId, installedMessage calls request.action)

/-- The title of a failure's result; the request is still empty when the layout is refused. -/
def failureTitle (stage : String) (requestData : Bytes) : Bytes :=
  if stage ≠ "layout" ∧ requestTitle requestData ≠ [] then requestTitle requestData
  else titles.agentTitleId

/-- `process_job`, with the jobs that have a result after it. -/
def processJob (calls : JobCalls) (jobId nonce requestData : Bytes)
    (results : List Bytes) : Except (String × VdevError) Unit × List Bytes :=
  match runJob titles sha256 calls jobId nonce requestData with
  | .ok (titleId, message) =>
    match vdevWriteResult jobId true (ascii "complete") 0 titleId (ascii message) with
    | .ok _ => (.ok (), jobId :: results)
    | .error e => (.error ("complete", e), results)
  | .error (stage, e) =>
    match vdevWriteResult jobId false (ascii stage) (vdevCode e)
      (failureTitle titles stage requestData) (ascii (messageForCode e)) with
    | .ok _ => (.error (stage, e), jobId :: results)
    | .error _ => (.error (stage, e), results)

end Job

section Results
variable {titles : TitleConfig} {results : List Bytes} {jobId : Bytes}

theorem selectJob_new {s : Option Bytes} {item : InboxItem}
    (hs : selectJob results s item = some jobId) :
    s = some jobId ∨ jobId ∉ results ∧ vdevIsLowerHex jobId 32 = true := by
  unfold selectJob at hs
  split at hs
  · exact .inl hs
  rename_i hc
  simp only [not_or, Bool.not_eq_false] at hc
  have hn (h : some item.name = some jobId) : jobId ∉ results ∧ vdevIsLowerHex jobId 32 = true := by
    cases h
    exact ⟨hc.2.2.2, hc.2.1⟩
  split at hs
  · exact .inr (hn hs)
  · split at hs
    · exact .inr (hn hs)
    · exact .inl hs

theorem folded_new {i : List InboxItem} {s : Option Bytes}
    (hs : i.foldl (selectJob results) s = some jobId) :
    s = some jobId ∨ jobId ∉ results ∧ vdevIsLowerHex jobId 32 = true := by
  induction i generalizing s with
  | nil => exact .inl hs
  | cons item i ih => exact (ih hs).elim selectJob_new .inr

theorem found_new {i : List InboxItem} (hs : vdevFindCommittedJob results i = some jobId) :
    jobId ∉ results ∧ vdevIsLowerHex jobId 32 = true :=
  (folded_new hs).resolve_left nofun

theorem quote_length (m : Bytes) : (quoteFromBytes m).length ≤ 3 * m.length := by
  induction m with
  | nil => exact Nat.le_refl 0
  | cons c m ih =>
    rw [quoteFromBytes, flatMap_cons, ← quoteFromBytes, length_append, length_cons]
    split <;> simp only [length_cons, length_nil] <;> omega

theorem signedDecimal_length (c : Int32) : (signedDecimal c.toInt).length ≤ 11 := by
  have hl := c.le_toInt
  have hu := c.toInt_lt
  have hd := decimal_length_le (show c.toInt.natAbs < 10 ^ (9 + 1) by omega)
  unfold signedDecimal
  split
  · rw [length_cons]
    omega
  · omega

/-- A short stage and message, a job's name and a title always give a result. -/
theorem vdevWriteResult_ok {s : Bool} {st titleId m : Bytes} {code : Int32}
    (hj : vdevIsLowerHex jobId 32 = true) (hs : validStage st = true) (hl : st.length ≤ 9)
    (ht : vdevIsTitleId titleId = true) (hm : m.length ≤ 100) :
    ∃ text, vdevWriteResult jobId s st code titleId m = .ok text := by
  have hq := quote_length m
  have hd := signedDecimal_length code
  have hr : (resultState s).length ≤ 7 := by cases s <;> decide
  have hj : jobId.length = 32 := by simpa [vdevIsLowerHex] using (Bool.and_eq_true_iff.mp hj).2
  have hn : titleId.length = 9 := of_decide_eq_true (Bool.and_eq_true_iff.mp ht).1
  refine ⟨_, bind_ok.mpr ⟨(), require_ok.mpr ⟨hs, ht⟩, bind_ok.mpr ⟨quoteFromBytes m, ?_,
    bind_ok.mpr ⟨(), require_ok.mpr ?_, bind_ok.mpr ⟨(), require_ok.mpr ?_, rfl⟩⟩⟩⟩⟩
  · rw [percentEncode_eq (by decide), nil_append, if_neg (by omega)]
  · simp only [length_append, hj]
    decide
  · simp [recordText, unlines, resultValues, fieldLine, resultKeys, resultHeader, ascii]
    omega

def stages : List String :=
  ["layout", "request", "manifest", "signature", "challenge", "journal", "tree", "sfo", "gate",
    "staging", "promote"]

/-- The result of this end can be written, but for the title of a failure. -/
def Ends : Except (String × VdevError) (Bytes × String) → Prop
  | .error (stage, _) => stage ∈ stages
  | .ok (titleId, message) => vdevIsTitleId titleId = true ∧ (ascii message).length ≤ 100

theorem ends_bind {α : Type} {run : Except VdevError α} {s : String}
    {next : α → Except (String × VdevError) (Bytes × String)} (hs : s ∈ stages)
    (hn : ∀ v, run = .ok v → Ends (next v)) : Ends (during s run >>= next) := by
  cases run with
  | error e => exact hs
  | ok v => exact hn v rfl

theorem runJob_ends (sha256 : Bytes → Bytes) (cs : JobCalls)
    (n received : Bytes) :
    Ends (runJob titles sha256 cs jobId n received) := by
  iterate 2 refine ends_bind (by decide) fun _ _ => ?_
  refine ends_bind (by decide) fun request _ => ?_
  iterate 4 refine ends_bind (by decide) fun _ _ => ?_
  refine ends_bind (by decide) fun manifest _ => ?_
  iterate 11 refine ends_bind (by decide) fun _ _ => ?_
  refine ends_bind (by decide) fun sfoTitle _ => ends_bind (by decide) fun _ ht => ?_
  obtain ⟨rfl, ha⟩ := require_ok.mp ht
  simp only [vdevIsAllowedTargetTitleId, Bool.and_eq_true] at ha
  split
  · iterate 2 refine ends_bind (by decide) fun _ _ => ?_
    exact ⟨ha.1.1, by decide⟩
  · iterate 3 refine ends_bind (by decide) fun _ _ => ?_
    refine ⟨ha.1.1, ?_⟩
    unfold installedMessage
    split_ifs <;> decide

variable {sha256 : Bytes → Bytes} {calls : JobCalls} {nonce data : Bytes}

/-- A request that is accepted carries a title ID. -/
theorem requestTitle_of_parsed {request : VdevRequest}
    (parsed : vdevParseRequest titles data = .ok request) :
    vdevIsTitleId (requestTitle data) = true := by
  obtain ⟨⟨⟩, sized, parsed⟩ := bind_ok.mp parsed
  obtain ⟨⟨header, afterHeader⟩, first, parsed⟩ := bind_ok.mp parsed
  obtain ⟨⟨⟩, headed, parsed⟩ := bind_ok.mp parsed
  obtain ⟨⟨jobLine, afterJob⟩, second, parsed⟩ := bind_ok.mp parsed
  obtain ⟨job, named, parsed⟩ := bind_ok.mp parsed
  obtain ⟨⟨nonceLine, afterNonce⟩, third, parsed⟩ := bind_ok.mp parsed
  obtain ⟨nonce, challenged, parsed⟩ := bind_ok.mp parsed
  obtain ⟨⟨actionLine, afterAction⟩, fourth, parsed⟩ := bind_ok.mp parsed
  obtain ⟨action, acted, parsed⟩ := bind_ok.mp parsed
  obtain ⟨⟨titleLine, afterTitle⟩, fifth, parsed⟩ := bind_ok.mp parsed
  obtain ⟨titleId, titled, -⟩ := bind_ok.mp parsed
  have copied : requestTitle data = (copyValue titleLine (ascii "title_id=") 10).getD [] := by
    simp only [requestTitle, sized, first, headed, second, named, third, challenged, fourth, acted,
      fifth, bind, Except.bind, pure, Except.pure]
  rw [copied]
  cases value : copyValue titleLine (ascii "title_id=") 10 with
  | none =>
    rw [value] at titled
    cases titled
  | some text =>
    simp only [value, valueOr] at titled
    split at titled
    · next allowed =>
      simp only [vdevIsAllowedTargetTitleId, Bool.and_eq_true] at allowed
      exact allowed.1.1
    · cases titled

theorem runJob_layout {stage : String} {e : VdevError} (refused : calls.layout ≠ .ok ())
    (failed : runJob titles sha256 calls jobId nonce data = .error (stage, e)) :
    stage = "layout" := by
  rw [runJob] at failed
  cases layout : calls.layout with
  | ok => exact absurd layout refused
  | error first =>
    rw [layout] at failed
    cases failed
    rfl

/-- With a title that is none in the request a job fails after its layout was accepted. -/
theorem runJob_request (accepted : calls.layout = .ok ())
    (refused : ¬vdevIsTitleId (requestTitle data) = true) :
    ∃ e, runJob titles sha256 calls jobId nonce data = .error ("request", e) := by
  unfold runJob
  rw [accepted]
  by_cases sized : data.length ≤ vdevRequestMax
  · cases parsed : vdevParseRequest titles data with
    | error e => exact ⟨e, by simp only [require, if_pos sized]; rfl⟩
    | ok request => exact absurd (requestTitle_of_parsed parsed) refused
  · exact ⟨.limit, by simp only [require, if_neg sized]; rfl⟩

/-- A result with a title that is none is refused. -/
theorem vdevWriteResult_title {success : Bool} {stage titleId message : Bytes} {code : Int32}
    (refused : ¬vdevIsTitleId titleId = true) :
    vdevWriteResult jobId success stage code titleId message = .error .internal := by
  unfold vdevWriteResult
  rw [require, if_neg fun both => refused both.2]
  rfl

theorem processJob_reported (named : vdevIsLowerHex jobId 32 = true)
    (agent : vdevIsTitleId titles.agentTitleId = true)
    (titled : calls.layout ≠ .ok () ∨ requestTitle data = [] ∨
      vdevIsTitleId (requestTitle data) = true) :
    (processJob titles sha256 calls jobId nonce data results).2 = jobId :: results := by
  have he := @runJob_ends titles jobId sha256 calls nonce data
  unfold processJob
  split
  · rename_i titleId message hk
    rw [hk] at he
    obtain ⟨text, hw⟩ := @vdevWriteResult_ok jobId true (ascii "complete") _ _ 0 named (by decide)
      (by decide) he.1 he.2
    rw [hw]
  · rename_i s e hk
    have ends := hk ▸ he
    have hs : ∀ s ∈ stages, validStage (ascii s) = true ∧ (ascii s).length ≤ 9 := by
      decide
    have hm : (ascii (messageForCode e)).length ≤ 100 := by
      cases e <;> simp only [messageForCode] <;> decide
    have ht : vdevIsTitleId (failureTitle titles s data) = true := by
      unfold failureTitle
      split
      · next copied =>
        rcases titled with layout | missing | valid
        · exact absurd (runJob_layout layout hk) copied.1
        · exact absurd missing copied.2
        · exact valid
      · exact agent
    obtain ⟨text, hw⟩ := @vdevWriteResult_ok jobId false _ _ _ (vdevCode e) named (hs s ends).1
      (hs s ends).2 ht hm
    simp only [hw]

theorem processJob_unreported (accepted : calls.layout = .ok ()) (copied : requestTitle data ≠ [])
    (refused : ¬vdevIsTitleId (requestTitle data) = true) :
    (processJob titles sha256 calls jobId nonce data results).2 = results := by
  obtain ⟨e, failed⟩ := @runJob_request titles jobId sha256 calls nonce data accepted refused
  have title : failureTitle titles "request" data = requestTitle data :=
    if_pos ⟨by decide, copied⟩
  simp only [processJob, failed, title, vdevWriteResult_title refused]

end Results

/-- A job leaves a result, and so is not selected again, exactly when its layout is refused or its
request has no title to copy or one that is a title ID. -/
theorem processed_job_reported (titles : TitleConfig) (sha256 : Bytes → Bytes)
    (calls : JobCalls) (jobId nonce requestData : Bytes) (inbox : List InboxItem)
    (results : List Bytes) (selected : vdevFindCommittedJob results inbox = some jobId)
    (agent : vdevIsTitleId titles.agentTitleId = true) :
    (jobId ∈ (processJob titles sha256 calls jobId nonce requestData results).2 ∧
      ∀ later inbox, (processJob titles sha256 calls jobId nonce requestData results).2 ⊆ later →
        vdevFindCommittedJob later inbox ≠ some jobId) ↔
    calls.layout ≠ .ok () ∨ requestTitle requestData = [] ∨
      vdevIsTitleId (requestTitle requestData) = true := by
  obtain ⟨fresh, named⟩ := found_new selected
  constructor
  · rintro ⟨reported, -⟩
    by_contra titled
    simp only [not_or, ne_eq, not_not] at titled
    rw [processJob_unreported titled.1 titled.2.1 titled.2.2] at reported
    exact fresh reported
  · intro titled
    rw [processJob_reported named agent titled]
    exact ⟨mem_cons_self, fun later inbox kept found => (found_new found).1 (kept mem_cons_self)⟩

def sampleCalls : JobCalls :=
  ⟨.ok (), [], [], .ok (), .ok (), fun _ => .ok (), .ok (), .ok (), .ok [], false, .ok (), .ok (),
    false, false⟩

/-- A request that ends behind its title. -/
def sampleRequest (titleId : Bytes) : Bytes :=
  recordText (ascii "VITADEVDEPLOY-REQUEST-1") (["job", "nonce", "action", "title_id"].map ascii)
    [sampleJob, replicate 64 98, ascii "verify", titleId]

def sampleTitles : TitleConfig := ⟨ascii "VDEVDEP01", []⟩

/-- The sample request in the inbox, after the results of the jobs before. -/
def sampleRun (titleId : Bytes) : Except (String × VdevError) Unit × List Bytes :=
  processJob sampleTitles id sampleCalls sampleJob [] (sampleRequest titleId) []

theorem processed_job_reported_malformed :
    sampleJob ∈ (sampleRun (ascii "ABCD00001")).2 ∧
      vdevFindCommittedJob (sampleRun (ascii "ABCD00001")).2 [⟨sampleJob, true, true⟩] ≠
        some sampleJob := by
  have reported := (processed_job_reported sampleTitles id sampleCalls sampleJob []
    (sampleRequest (ascii "ABCD00001")) [⟨sampleJob, true, true⟩] [] (by decide +kernel)
    (by decide)).mpr (.inr (.inr (by decide +kernel)))
  exact ⟨reported.1, reported.2 _ _ (Subset.refl _)⟩

/-- A title of three letters is copied and refused; the result is refused with it. -/
theorem poison_job_selected :
    sampleRun (ascii "abc") = (.error ("request", .title), []) ∧
      vdevFindCommittedJob (sampleRun (ascii "abc")).2 [⟨sampleJob, true, true⟩] =
        some sampleJob := by
  decide +kernel

end VitaDebugger.JobResults
