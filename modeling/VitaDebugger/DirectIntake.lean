import VitaDebugger.CanonicalRecords

/-! The direct intake receives the files of a signed manifest one by one, each with `.part`
behind its name until it is complete. On a file system that ignores the case of ASCII letters
such a name can be that of another file. -/

namespace VitaDebugger.DirectIntake
open AgentProtocol AsciiText Fallible HostManifest ManifestAgreement ManifestParse List Function
open PackagePaths PackageTree ScanLoop

inductive Node where
  | directory
  | file (content : Bytes)
  deriving DecidableEq

/-- What stands under each name, the names in lower case. -/
abbrev Disk := Path → Option Node

section Intake
variable (disk : Disk) (path : Path)

def stat : Option Node := disk (casefold path)

def put (node : Option Node) : Disk := Function.update disk (casefold path) node

def removeIfRegular : Disk :=
  match stat disk path with
  | some (.file _) => put disk path none
  | _ => disk

def vdevEnsureDirectory : Except VdevError Disk :=
  match stat disk path with
  | some .directory => .ok disk
  | some (.file _) => .error .path
  | none => .ok (put disk path (some .directory))

/-- The loop of `ensure_package_parents`, with the part of the path before it. -/
def ensureParents (disk : Disk) (depth : ℕ) (directory : Path) : Path → Except VdevError Disk
  | [] => .ok disk
  | c :: rest =>
    if c ≠ 47 then ensureParents disk depth (directory ++ [c]) rest
    else if vdevTreeMaxDepth < depth + 1 then .error .limit
    else do
      let disk ← vdevEnsureDirectory disk directory
      ensureParents disk (depth + 1) (directory ++ [c]) rest

def ensurePackageParents (packageRoot : Path) : Except VdevError Disk := do
  require (packageRoot.length + 1 + path.length + 1 ≤ vdevPathMax) .limit
  ensureParents disk 0 (packageRoot ++ [47]) path

/-- A round of the receiving loop; the state is what remains and what has been written. -/
def receiveChunk (state : ℕ × Bytes) (stream : Bytes) :
    Except VdevError (Option ((ℕ × Bytes) × Bytes)) :=
  let chunk := min state.1 65536
  if state.1 = 0 then .ok none
  else if stream.length < chunk then .error .interrupted
  else .ok (some ((state.1 - chunk, state.2 ++ stream.take chunk), stream.drop chunk))

def partPath : Path := path ++ ascii ".part"

/-- The system opens no directory for writing and renames no file over one (`EISDIR`). -/
def refuseDirectory : Except VdevError Unit :=
  require (stat disk path ≠ some .directory) (.io (-2147418091))

variable (titles : TitleConfig) (sha256 : Bytes → Bytes)

def checkFile (entry : VdevManifestEntry) : Except VdevError Unit :=
  match stat disk path with
  | some (.file content) => do
    let digest ← vdevSha256File sha256 content entry.size
    require (digest = entry.sha256) .hash
  | _ => .error .changed

def receiveFile (entry : VdevManifestEntry) (stream : Bytes) : Except VdevError (Disk × Bytes) := do
  require (path.length + 6 ≤ vdevPathMax) .limit
  let disk := removeIfRegular disk (partPath path)
  refuseDirectory disk (partPath path)
  let ((_, content), stream) ← scan receiveChunk (entry.size, []) stream
  require (sha256 content = entry.sha256) .hash
  refuseDirectory disk path
  -- The complete file is renamed.
  let disk := put (put disk (partPath path) none) path (some (.file content))
  checkFile disk path sha256 entry
  pure (disk, stream)

def inPackage (package : Path) (entry : VdevManifestEntry) : Path := package ++ 47 :: entry.path

def receiveEntry (package : Path) (entry : VdevManifestEntry) (stream : Bytes) :
    Except VdevError (Disk × Bytes) := do
  let disk ← ensurePackageParents disk entry.path package
  require (vdevPathJoin vdevPathMax package entry.path = true) .limit
  receiveFile disk (inPackage package entry) sha256 entry stream

/-- The files in the order of the manifest; a failure tells how many came before it. -/
def receiveFiles (package : Path) : List VdevManifestEntry → ℕ × ℕ → Disk → Bytes →
    Except (VdevError × ℕ × ℕ) (Disk × ℕ × ℕ)
  | [], counts, disk, _ => .ok (disk, counts)
  | entry :: rest, counts, disk, stream =>
    match receiveEntry disk sha256 package entry stream with
    | .error e => .error (e, counts)
    | .ok (disk, stream) =>
      receiveFiles package rest (counts.1 + 1, counts.2 + entry.size) disk stream

/-- What the host sends behind its header, whose sizes are those of the parts. -/
structure Upload where
  request : Bytes
  manifest : Bytes
  signature : Bytes
  packageSize : ℕ
  payload : Bytes

/-- The answers the intake meets; `staged` is the disk with the empty package directory. -/
structure Calls where
  challengeNonce : Bytes
  verifyJobSignature : Except VdevError Unit
  resultExists : Except VdevError Bool
  requestExists : Except VdevError Bool
  staged : Disk
  cleanup : Except VdevError Unit

inductive Ack where
  | authenticated (refused : Option VdevError)
  | committed (failed : Option VdevError) (counts : ℕ × ℕ)
  deriving DecidableEq

def authenticate (calls : Calls) (upload : Upload) :
    Except VdevError (VdevRequest × VdevManifest) := do
  require (upload.request.length ≠ 0 ∧ upload.request.length ≤ vdevRequestMax ∧
    upload.manifest.length ≠ 0 ∧ upload.manifest.length ≤ vdevManifestMax ∧
    upload.signature.length = 64 ∧ upload.packageSize ≤ vdevMaxTotalSize) .limit
  let request ← vdevParseRequest titles upload.request
  require (request.nonce = calls.challengeNonce) .signature
  require (sha256 upload.manifest = request.manifestSha256) .hash
  calls.verifyJobSignature
  let manifest ← vdevParseManifest upload.manifest
  require (manifest.entries.length = request.fileCount ∧ manifest.totalSize = request.totalSize ∧
    upload.packageSize = request.totalSize) .format
  let existing ← calls.resultExists
  require (existing = false) .replay
  let existing ← calls.requestExists
  require (existing = false) .replay
  pure (request, manifest)

def packageDirectory (job : Bytes) : Path :=
  ascii "ux0:data/VitaDevDeploy/inbox/" ++ job ++ ascii "/package"

/-- The acknowledgements of a transfer, with the disk it leaves when it commits. -/
def handleClient (calls : Calls) (upload : Upload) : List Ack × Option Disk :=
  match authenticate titles sha256 calls upload with
  | .error e => ([.authenticated (some e)], none)
  | .ok (request, manifest) =>
    match receiveFiles sha256 (packageDirectory request.job) manifest.entries (0, 0) calls.staged
      upload.payload with
    | .error (e, counts) =>
      let failed := if calls.cleanup = .ok () then e else .commitUnknown
      ([.authenticated none, .committed (some failed) counts], none)
    | .ok (disk, counts) => ([.authenticated none, .committed none counts], some disk)

end Intake

section Complete
variable {sha256 : Bytes → Bytes} {disk after : Disk} {path package key : Path}
  {entry earlier : VdevManifestEntry} {stream rest : Bytes}

/-- The file of an entry, as the manifest declares it. -/
def Complete (sha256 : Bytes → Bytes) (disk : Disk) (package : Path)
    (entry : VdevManifestEntry) : Prop :=
  ∃ content, stat disk (inPackage package entry) = some (.file content) ∧
    content.length = entry.size ∧ sha256 content = entry.sha256

/-- Missing directories are made; everything else stays as it is. -/
theorem vdevEnsureDirectory_key (made : vdevEnsureDirectory disk path = .ok after) (key : Path) :
    after key = disk key ∨ disk key = none ∧ after key = some .directory := by
  unfold vdevEnsureDirectory at made
  split at made
  · cases made
    exact .inl rfl
  · cases made
  · rename_i missing
    cases made
    by_cases same : key = casefold path
    · rw [same]
      exact .inr ⟨missing, update_self ..⟩
    · exact .inl (update_of_ne same _ _)

theorem ensureParents_key {depth : ℕ} {directory : Path}
    (made : ensureParents disk depth directory path = .ok after) (key : Path) :
    after key = disk key ∨ disk key = none ∧ after key = some .directory := by
  induction path generalizing disk depth directory with
  | nil =>
    cases made
    exact .inl rfl
  | cons c path ih =>
    rw [ensureParents] at made
    split at made
    · exact ih made
    split at made
    · cases made
    · obtain ⟨next, first, made⟩ := bind_ok.mp made
      rcases ih made with same | ⟨missing, directory⟩
      · rw [same]
        exact vdevEnsureDirectory_key first key
      · rcases vdevEnsureDirectory_key first key with same | ⟨-, first⟩
        · exact .inr ⟨same ▸ missing, directory⟩
        · cases missing.symm.trans first

theorem removeIfRegular_other (other : key ≠ casefold path) :
    removeIfRegular disk path key = disk key := by
  unfold removeIfRegular
  cases stat disk path with
  | none => rfl
  | some node =>
    cases node with
    | directory => rfl
    | file content => exact update_of_ne other _ _

theorem casefold_part_ne (path : Path) : casefold (partPath path) ≠ casefold path := by
  intro same
  have length := congrArg List.length same
  simp [casefold, partPath, ascii] at length

theorem receiveFile_ok (received : receiveFile disk path sha256 entry stream = .ok (after, rest)) :
    (∃ content, stat after path = some (.file content) ∧ content.length = entry.size ∧
      sha256 content = entry.sha256) ∧ stat after (partPath path) = none ∧
    ∀ key, key ≠ casefold path → key ≠ casefold (partPath path) → after key = disk key := by
  simp only [receiveFile, bind_ok, require_ok] at received
  obtain ⟨_, -, _, -, ⟨⟨_, content⟩, _⟩, -, _, hash, _, -, _, checked, received⟩ := received
  cases received
  have stored : stat (put (put (removeIfRegular disk (partPath path)) (partPath path) none) path
      (some (.file content))) path = some (.file content) := update_self ..
  refine ⟨⟨content, stored, ?_, hash⟩, ?_, fun key other notPart => ?_⟩
  · simp only [checkFile, stored, bind_ok, vdevSha256File] at checked
    obtain ⟨digest, read, -⟩ := checked
    split at read
    · cases read
    · rename_i length
      exact not_not.mp length
  · rw [stat, put, update_of_ne (casefold_part_ne path)]
    exact update_self ..
  · rw [put, update_of_ne other, put, update_of_ne notPart,
      removeIfRegular_other notPart]

/-- Two entries under different names. -/
def Distinct (left right : VdevManifestEntry) : Prop := casefold left.path ≠ casefold right.path

/-- The later entry's temporary name is not the earlier one's. -/
def Apart (earlier later : VdevManifestEntry) : Prop :=
  casefold earlier.path ≠ casefold (partPath later.path)

theorem casefold_inPackage (entry : VdevManifestEntry) :
    casefold (inPackage package entry) = casefold package ++ 47 :: casefold entry.path := by
  simp [inPackage, casefold]

theorem casefold_part (entry : VdevManifestEntry) : casefold (partPath (inPackage package entry)) =
    casefold package ++ 47 :: casefold (partPath entry.path) := by
  simp [inPackage, partPath, casefold]

theorem receiveEntry_ok
    (received : receiveEntry disk sha256 package entry stream = .ok (after, rest)) :
    ∃ next, (∀ key, next key = disk key ∨ disk key = none ∧ next key = some .directory) ∧
      receiveFile next (inPackage package entry) sha256 entry stream = .ok (after, rest) := by
  simp only [receiveEntry, ensurePackageParents, bind_ok, require_ok] at received
  obtain ⟨next, ⟨_, -, made⟩, _, -, received⟩ := received
  exact ⟨next, ensureParents_key made, received⟩

/-- A file is kept, and none appears, under the name of another entry whose place is not used. -/
theorem receiveEntry_file (distinct : Distinct earlier entry) (apart : Apart earlier entry)
    (received : receiveEntry disk sha256 package entry stream = .ok (after, rest))
    (content : Bytes) :
    stat after (inPackage package earlier) = some (.file content) ↔
      stat disk (inPackage package earlier) = some (.file content) := by
  obtain ⟨next, made, received⟩ := receiveEntry_ok received
  rw [stat, (receiveFile_ok received).2.2]
  · rcases made (casefold (inPackage package earlier)) with same | ⟨missing, directory⟩
    · rw [same, stat]
    · simp [stat, missing, directory]
  · rw [casefold_inPackage, casefold_inPackage]
    simpa [Distinct] using distinct
  · rw [casefold_inPackage, casefold_part]
    simpa [Apart] using apart

/-- The file that has the temporary name is gone. -/
theorem receiveEntry_lost (clash : ¬Apart earlier entry)
    (received : receiveEntry disk sha256 package entry stream = .ok (after, rest)) :
    stat after (inPackage package earlier) = none := by
  obtain ⟨next, -, received⟩ := receiveEntry_ok received
  rw [stat, casefold_inPackage, not_not.mp clash, ← casefold_part]
  exact (receiveFile_ok received).2.1

theorem receiveFiles_lost {entries : List VdevManifestEntry} {counts result : ℕ × ℕ}
    (distinct : ∀ entry ∈ entries, Distinct earlier entry)
    (lost : ∀ content, stat disk (inPackage package earlier) ≠ some (.file content))
    (received : receiveFiles sha256 package entries counts disk stream = .ok (after, result)) :
    ∀ content, stat after (inPackage package earlier) ≠ some (.file content) := by
  induction entries generalizing counts disk stream with
  | nil =>
    cases received
    exact lost
  | cons entry entries ih =>
    rw [receiveFiles] at received
    split at received
    · cases received
    rename_i next rest one
    obtain ⟨first, others⟩ := forall_mem_cons.mp distinct
    refine ih others (fun content => ?_) received
    by_cases apart : Apart earlier entry
    · rw [ne_eq, receiveEntry_file first apart one]
      exact lost content
    · rw [receiveEntry_lost apart one]
      simp

theorem receiveFiles_complete {before entries : List VdevManifestEntry} {counts result : ℕ × ℕ}
    (distinct : (before ++ entries).Pairwise Distinct) (apart : before.Pairwise Apart)
    (complete : ∀ entry ∈ before, Complete sha256 disk package entry)
    (received : receiveFiles sha256 package entries counts disk stream = .ok (after, result)) :
    (∀ entry ∈ before ++ entries, Complete sha256 after package entry) ↔
      (before ++ entries).Pairwise Apart := by
  induction entries generalizing before counts disk stream with
  | nil =>
    cases received
    simpa [apart] using complete
  | cons entry entries ih =>
    rw [receiveFiles] at received
    split at received
    · cases received
    rename_i next rest one
    have split : before ++ entry :: entries = (before ++ [entry]) ++ entries := by simp
    rw [split] at distinct ⊢
    have earlier := (pairwise_append.mp (pairwise_append.mp distinct).1).2.2
    by_cases clear : ∀ old ∈ before, Apart old entry
    · refine ih distinct ?_ ?_ received
      · simpa [pairwise_append, apart] using clear
      intro old mem
      rcases mem_append.mp mem with mem | mem
      · obtain ⟨content, stored, valid⟩ := complete old mem
        have other := earlier old mem entry (mem_singleton_self _)
        exact ⟨content, (receiveEntry_file other (clear old mem) one content).mpr stored, valid⟩
      · cases mem_singleton.mp mem
        obtain ⟨_, -, one⟩ := receiveEntry_ok one
        exact (receiveFile_ok one).1
    · simp only [not_forall] at clear
      obtain ⟨old, mem, clash⟩ := clear
      have whole := mem_append_left [entry] mem
      refine iff_of_false (fun all => ?_) fun pairs => clash ?_
      · obtain ⟨content, stored, -⟩ := all old (mem_append_left _ whole)
        refine receiveFiles_lost ?_ ?_ received content stored
        · exact (pairwise_append.mp distinct).2.2 old whole
        · simp [receiveEntry_lost clash one]
      · exact (pairwise_append.mp (pairwise_append.mp pairs).1).2.2 old mem entry
          (mem_singleton_self _)

theorem vdevParseManifest_distinct {manifest : VdevManifest} {data : Bytes}
    (accepted : vdevParseManifest data = .ok manifest) : manifest.entries.Pairwise Distinct := by
  refine vdevParseManifest_keeps (P := fun m => m.entries.Pairwise _) .nil ?_ accepted
  intro manifest line after pairs read
  simp only [manifestRow, bind_ok, require_ok] at read
  obtain ⟨⟨_, _, path⟩, -, _, -, _, -, _, -, _, -, _, -, _, -, _, new, _, -, _, -, read⟩ := read
  cases read
  refine pairwise_append.mpr
    ⟨pairs, pairwise_singleton _ _, fun left mem right last => ?_⟩
  cases mem_singleton.mp last
  rw [Distinct, ne_eq, ← asciiCaseEqual_iff, new left mem]
  decide

/-- A transfer that is acknowledged as committed has left every file of the manifest exactly when
no file has the temporary name of a later one. -/
theorem committed_package_complete (titles : TitleConfig) (sha256 : Bytes → Bytes)
    (calls : Calls) (upload : Upload) {manifest : VdevManifest} {counts : ℕ × ℕ}
    (accepted : vdevParseManifest upload.manifest = .ok manifest)
    (committed : Ack.committed none counts ∈ (handleClient titles sha256 calls upload).1) :
    ∃ request disk, vdevParseRequest titles upload.request = .ok request ∧
      (handleClient titles sha256 calls upload).2 = some disk ∧
      ((∀ entry ∈ manifest.entries, Complete sha256 disk (packageDirectory request.job) entry) ↔
        manifest.entries.Pairwise fun earlier later =>
          casefold earlier.path ≠ casefold (partPath later.path)) := by
  have distinct := vdevParseManifest_distinct accepted
  unfold handleClient at committed ⊢
  split at committed
  · simp at committed
  rename_i request parsed authenticated
  simp only [authenticate, bind_ok, require_ok] at authenticated
  obtain ⟨_, -, _, read, _, -, _, -, _, -, _, same, _, -, _, -, _, -, _, -, _, -, authenticated⟩ :=
    authenticated
  cases authenticated
  cases same.symm.trans accepted
  split at committed
  · simp at committed
  rename_i disk result received
  exact ⟨request, disk, read, by simp [*],
    @receiveFiles_complete _ _ _ _ _ [] _ _ _ distinct .nil (by simp) received⟩

/-- The upload of two files, whose digests are lengths. -/
def sampleUpload (es : List VdevManifestEntry) : Upload :=
  let manifest := manifestHeader ++ es.flatMap rowText
  let request : CanonicalRecords.Request :=
    ⟨DeployRecords.sampleJob, List.replicate 64 98, ascii "verify", ascii "ABCD00001",
      LowerHex.encode (lengthDigest manifest), 2, 3⟩
  ⟨request.data, manifest, List.replicate 64 0, 3, [1, 2, 3]⟩

def sampleCalls : Calls :=
  ⟨List.replicate 64 98, .ok (), .ok false, .ok false,
    put (fun _ => none) (packageDirectory DeployRecords.sampleJob) (some .directory), .ok ()⟩

def sampleTransfer (es : List VdevManifestEntry) : List Ack × Option Disk :=
  handleClient ⟨ascii "VDEVDEP01", []⟩ lengthDigest sampleCalls (sampleUpload es)

def sampleEntries (first second : String) : List VdevManifestEntry :=
  [⟨lengthDigest [1], 1, ascii first, false⟩, ⟨lengthDigest [2, 3], 2, ascii second, false⟩]

theorem committed_package_complete_sample : ∃ request disk,
    vdevParseRequest ⟨ascii "VDEVDEP01", []⟩ (sampleUpload (sampleEntries "a" "b/c")).request =
        .ok request ∧
      (sampleTransfer (sampleEntries "a" "b/c")).2 = some disk ∧
      ∀ entry ∈ sampleEntries "a" "b/c",
        Complete lengthDigest disk (packageDirectory request.job) entry := by
  obtain ⟨request, disk, read, left, complete⟩ := @committed_package_complete
    ⟨ascii "VDEVDEP01", []⟩ lengthDigest sampleCalls (sampleUpload (sampleEntries "a" "b/c"))
    ⟨sampleEntries "a" "b/c", 3⟩ (2, 3) (by decide +kernel) (by decide +kernel)
  exact ⟨request, disk, read, left, complete.mpr (by decide +kernel)⟩

/-- `A.PART` is complete when the intake removes it to receive `a`. -/
theorem part_name_lost : vdevParseManifest (sampleUpload (sampleEntries "A.PART" "a")).manifest =
      .ok ⟨sampleEntries "A.PART" "a", 3⟩ ∧
    (sampleTransfer (sampleEntries "A.PART" "a")).1 =
      [.authenticated none, .committed none (2, 3)] ∧
    (sampleTransfer (sampleEntries "A.PART" "a")).2.map
      (stat · (packageDirectory DeployRecords.sampleJob ++ ascii "/A.PART")) = some none := by
  decide +kernel

end Complete

end VitaDebugger.DirectIntake
