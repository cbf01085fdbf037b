import Mathlib.Data.Int.Notation
import VitaDebugger.AsciiText
import VitaDebugger.BinarySearch
import VitaDebugger.LowerHex
import VitaDebugger.PackageTree
import VitaDebugger.ScanLoop

/-! `protocol.c` of the deployment agent: the request, the manifest and the check of a package
tree against its manifest. Texts are C strings without their final zero byte. -/

namespace VitaDebugger.AgentProtocol
open AsciiText BinarySearch LowerHex PackageTree ScanLoop

/-- The error codes of `common.h`; the system's own codes are `io`. -/
inductive VdevError where
  | oom
  | format
  | limit
  | path
  | hash
  | extra
  | missing
  | signature
  | trustKey
  | title
  | gate
  | replay
  | changed
  | internal
  | promoteResult
  | promoteUnknown
  | staleStage
  | reporting
  | network
  | interrupted
  | commitUnknown
  | io (code : ℤ)
  deriving DecidableEq

abbrev vdevPathMax : ℕ := 768
abbrev vdevRelPathMax : ℕ := 240
abbrev vdevRequestMax : ℕ := 4096
abbrev vdevManifestMax : ℕ := 4 * 1024 * 1024
abbrev vdevMaxFiles : ℕ := 8192
abbrev vdevTreeMaxDepth : ℕ := 32
abbrev vdevMaxFileSize : ℕ := 256 * 1024 * 1024
abbrev vdevMaxTotalSize : ℕ := 1024 * 1024 * 1024
abbrev uint64Max : ℕ := 2 ^ 64 - 1

/-- A line and what stands behind it; carriage returns and zero bytes are refused. -/
def nextLine : Bytes → Option (Bytes × Bytes)
  | [] => none
  | c :: rest =>
    if c = 10 then some ([], rest)
    else if c = 13 ∨ c = 0 then none
    else (nextLine rest).map fun found => (c :: found.1, found.2)

/-- The value behind a key, if it fits its buffer with the final zero byte. -/
def copyValue (line key : Bytes) (outputSize : ℕ) : Option Bytes :=
  if line.length ≤ key.length ∨ line.take key.length ≠ key ∨
      line.length - key.length + 1 > outputSize then none
  else some (line.drop key.length)

def parseDigits (parsed : ℕ) : Bytes → Except VdevError ℕ
  | [] => .ok parsed
  | c :: rest =>
    if ¬IsDigit c then .error .format
    else if parsed > (uint64Max - (c.toNat - 48)) / 10 then .error .limit
    else parseDigits (parsed * 10 + (c.toNat - 48)) rest

def parseDecimal (text : Bytes) : Except VdevError ℕ :=
  if text.length = 0 ∨ text.length > 1 ∧ text.head? = some 48 then .error .format
  else parseDigits 0 text

def parseDecimalLine (line key : Bytes) : Except VdevError ℕ :=
  if line.length ≤ key.length ∨ line.take key.length ≠ key then .error .format
  else parseDecimal (line.drop key.length)

def vdevIsLowerHex (text : Bytes) (length : ℕ) : Bool :=
  text.all (fun c => decide (IsHex c)) && decide (text.length = length)

section Request

/-- The build's titles: the agent's own and, if not empty, the only target. -/
structure TitleConfig where
  agentTitleId : Bytes
  onlyTargetTitleId : Bytes

def vdevIsTitleId (text : Bytes) : Bool :=
  decide (text.length = 9) && text.all fun c => decide (65 ≤ c ∧ c ≤ 90 ∨ 48 ≤ c ∧ c ≤ 57)

def vdevIsAllowedTargetTitleId (titles : TitleConfig) (text : Bytes) : Bool :=
  vdevIsTitleId text && text != titles.agentTitleId &&
    (titles.onlyTargetTitleId == [] || text == titles.onlyTargetTitleId)

inductive VdevAction where
  | verify
  | install
  | installLaunch
  deriving DecidableEq

structure VdevRequest where
  job : Bytes
  nonce : Bytes
  action : VdevAction
  titleId : Bytes
  manifestSha256 : Bytes
  fileCount : ℕ
  totalSize : ℕ
  deriving DecidableEq

def parseAction (text : Bytes) : Option VdevAction :=
  if text = ascii "verify" then some .verify
  else if text = ascii "install" then some .install
  else if text = ascii "install_launch" then some .installLaunch
  else none

/-- `NEXT()`: the next line, or a format error. -/
def next (input : Bytes) : Except VdevError (Bytes × Bytes) :=
  match nextLine input with
  | none => .error .format
  | some found => .ok found

/-- A check that ends the parse with its error. -/
def require (condition : Prop) [Decidable condition] (e : VdevError) : Except VdevError Unit :=
  if condition then .ok () else .error e

def valueOr (value : Option Bytes) (valid : Bytes → Bool) (e : VdevError) :
    Except VdevError Bytes :=
  match value with
  | none => .error e
  | some text => if valid text then .ok text else .error e

def actionOr (value : Option Bytes) : Except VdevError VdevAction :=
  match value.bind parseAction with
  | none => .error .format
  | some action => .ok action

def digestOr (hex : Bytes) : Except VdevError Bytes :=
  match decode hex with
  | none => .error .format
  | some digest => .ok digest

def vdevParseRequest (titles : TitleConfig) (data : Bytes) : Except VdevError VdevRequest := do
  require (data.length ≠ 0 ∧ data.length ≤ vdevRequestMax) .format
  let (header, data) ← next data
  require (header = ascii "VITADEVDEPLOY-REQUEST-1") .format
  let (line, data) ← next data
  let job ← valueOr (copyValue line (ascii "job=") 33) (vdevIsLowerHex · 32) .format
  let (line, data) ← next data
  let nonce ← valueOr (copyValue line (ascii "nonce=") 65) (vdevIsLowerHex · 64) .format
  let (line, data) ← next data
  let action ← actionOr (copyValue line (ascii "action=") 32)
  let (line, data) ← next data
  let titleId ← valueOr (copyValue line (ascii "title_id=") 10)
    (vdevIsAllowedTargetTitleId titles) .title
  let (line, data) ← next data
  let manifestHex ← valueOr (copyValue line (ascii "manifest_sha256=") 65)
    (vdevIsLowerHex · 64) .format
  let digest ← digestOr manifestHex
  let (line, data) ← next data
  let count ← parseDecimalLine line (ascii "file_count=")
  require (count ≠ 0 ∧ count ≤ vdevMaxFiles) .limit
  let (line, data) ← next data
  let totalSize ← parseDecimalLine line (ascii "total_size=")
  require (totalSize ≤ vdevMaxTotalSize) .limit
  require (data = []) .format
  pure ⟨job, nonce, action, titleId, digest, count, totalSize⟩

end Request

/-- The loop of `validate_relative_path`, with the segment it stands in. -/
def validSegments (segment : Bytes) : Bytes → Bool
  | [] => segment != [] && segment != [46] && segment != [46, 46]
  | c :: rest =>
    if c = 47 then segment != [] && segment != [46] && segment != [46, 46] && validSegments [] rest
    else if c < 0x20 ∨ c > 0x7e ∨ c = 9 ∨ c = 92 ∨ c = 58 then false
    else validSegments (segment ++ [c]) rest

def validateRelativePath (path : Bytes) : Bool :=
  if path.length = 0 ∨ path.length > vdevRelPathMax ∨ path.head? = some 47 ∨
      path.getLast? = some 47 then false
  else validSegments [] path

def lowerCase (c : UInt8) : UInt8 := if 65 ≤ c ∧ c ≤ 90 then c + 32 else c

def asciiCaseEqual : Bytes → Bytes → Bool
  | a :: left, b :: right => if lowerCase a ≠ lowerCase b then false else asciiCaseEqual left right
  | [], [] => true
  | _, _ => false

section Manifest

structure VdevManifestEntry where
  sha256 : Bytes
  size : ℕ
  path : Bytes
  seen : Bool
  deriving DecidableEq

structure VdevManifest where
  entries : List VdevManifestEntry
  totalSize : ℕ
  deriving DecidableEq

def tabPositions (index : ℕ) : Bytes → List ℕ
  | [] => []
  | c :: rest =>
    if c = 9 then index :: tabPositions (index + 1) rest else tabPositions (index + 1) rest

/-- The fields of a row, by the places of its two tabs. -/
def rowFields (line : Bytes) : Except VdevError (Bytes × Bytes × Bytes) :=
  match tabPositions 0 line with
  | [firstTab, secondTab] =>
    if firstTab ≠ 64 ∨ secondTab ≤ firstTab + 1 ∨ line.length ≤ secondTab + 1 then .error .format
    else .ok (line.take 64, (line.drop (firstTab + 1)).take (secondTab - firstTab - 1),
      line.drop (secondTab + 1))
  | _ => .error .format

def hashOr (hex : Bytes) : Except VdevError Bytes :=
  if vdevIsLowerHex hex 64 then digestOr hex else .error .format

/-- One row of the manifest, against the rows before it. -/
def manifestRow (manifest : VdevManifest) (line : Bytes) : Except VdevError VdevManifest := do
  let (hashHex, sizeText, path) ← rowFields line
  require (manifest.entries.length < vdevMaxFiles) .limit
  let sha256 ← hashOr hashHex
  let size ← parseDecimal sizeText
  require (size ≤ vdevMaxFileSize) .limit
  require (validateRelativePath path = true) .path
  require (∀ entry ∈ manifest.entries.getLast?, strcmp entry.path path = .lt) .format
  require (∀ entry ∈ manifest.entries, asciiCaseEqual entry.path path = false) .path
  require (size ≤ uint64Max - manifest.totalSize) .limit
  require (manifest.totalSize + size ≤ vdevMaxTotalSize) .limit
  pure ⟨manifest.entries ++ [⟨sha256, size, path, false⟩], manifest.totalSize + size⟩

def manifestRound (manifest : VdevManifest) (input : Bytes) :
    Except VdevError (Option (VdevManifest × Bytes)) :=
  if input = [] then .ok none
  else do
    let (line, rest) ← next input
    let manifest ← manifestRow manifest line
    pure (some (manifest, rest))

def vdevParseManifest (data : Bytes) : Except VdevError VdevManifest := do
  require (data.length ≠ 0 ∧ data.length ≤ vdevManifestMax) .format
  let (header, data) ← next data
  require (header = ascii "VITADEVDEPLOY-MANIFEST-1") .format
  let (manifest, _) ← scan manifestRound ⟨[], 0⟩ data
  require (manifest.entries ≠ []) .format
  pure manifest

end Manifest

section Tree
variable (sha256 : Bytes → Bytes) (packageDirectory : Bytes)

def pathAt (entries : List VdevManifestEntry) (index : ℕ) : Bytes :=
  (entries[index]?.map (·.path)).getD []

def findManifestEntry (entries : List VdevManifestEntry) (path : Bytes) : Option ℕ :=
  search (fun index => strcmp path (pathAt entries index)) (entries.length + 1) 0 entries.length

def manifestHasDescendant (entries : List VdevManifestEntry) (directory : Bytes) : Bool :=
  entries.any fun entry =>
    entry.path.take directory.length == directory && entry.path[directory.length]? == some 47

/-- Whether two paths joined fit a buffer. -/
def vdevPathJoin (outputSize : ℕ) (left right : Bytes) : Bool :=
  decide (left.length + (if 0 < left.length ∧ left.getLast? ≠ some 47 then 1 else 0) +
    right.length + 1 ≤ outputSize)

/-- The digest of a file that does not change and has the expected size. -/
def vdevSha256File (content : Bytes) (expectedSize : ℕ) : Except VdevError Bytes :=
  if content.length ≠ expectedSize then .error .changed else .ok (sha256 content)

structure TreeState where
  entries : List VdevManifestEntry
  actualCount : ℕ
  actualSize : ℕ

/-- The path of a directory entry, checked. -/
def relativePath (relative name : Bytes) : Except VdevError Bytes := do
  require (name.length ≠ 0 ∧ relative.length + (if relative.length ≠ 0 then 1 else 0) +
    name.length + 1 ≤ vdevRelPathMax + 1) .limit
  require (validateRelativePath (under relative name) = true) .path
  require (vdevPathJoin vdevPathMax packageDirectory (under relative name) = true) .limit
  pure (under relative name)

def verifyFile (path content : Bytes) (state : TreeState) : Except VdevError TreeState :=
  match findManifestEntry state.entries path with
  | none => .error .extra
  | some index =>
    match state.entries[index]? with
    | none => .error .extra
    | some expected => do
      require (expected.seen = false) .extra
      let digest ← vdevSha256File sha256 content expected.size
      require (digest = expected.sha256) .hash
      require (expected.size ≤ uint64Max - state.actualSize) .limit
      pure ⟨state.entries.set index { expected with seen := true }, state.actualCount + 1,
        state.actualSize + expected.size⟩

/-- The checks before a directory is read. -/
def openDirectory (relative : Bytes) (depth : ℕ) : Except VdevError Unit := do
  require (depth ≤ vdevTreeMaxDepth) .limit
  if relative = [] then require (packageDirectory.length + 1 ≤ vdevPathMax) .limit
  else require (vdevPathJoin vdevPathMax packageDirectory relative = true) .limit

def skipped (name : Bytes) : Bool := name == [46] || name == [46, 46]

/-- The loop over the entries of an open directory. -/
def verifyEntries (relative : Bytes) (depth : ℕ) : Entries → TreeState → Except VdevError TreeState
  | .nil, state => .ok state
  | .file name content rest, state =>
    if skipped name then verifyEntries relative depth rest state
    else do
      let path ← relativePath packageDirectory relative name
      let state ← verifyFile sha256 path content state
      verifyEntries relative depth rest state
  | .special name _ rest, state =>
    if skipped name then verifyEntries relative depth rest state
    else do
      let _ ← relativePath packageDirectory relative name
      .error .extra
  | .directory name inner rest, state =>
    if skipped name then verifyEntries relative depth rest state
    else do
      let path ← relativePath packageDirectory relative name
      require (manifestHasDescendant state.entries path = true) .extra
      openDirectory packageDirectory path (depth + 1)
      let state ← verifyEntries path (depth + 1) inner state
      verifyEntries relative depth rest state

def verifyDirectory (tree : Entries) (state : TreeState) : Except VdevError TreeState := do
  openDirectory packageDirectory [] 0
  verifyEntries sha256 packageDirectory [] 0 tree state

def vdevVerifyPackageTree (manifest : VdevManifest) (tree : Entries) :
    Except VdevError VdevManifest := do
  let entries := manifest.entries.map fun entry => { entry with seen := false }
  let state ← verifyDirectory sha256 packageDirectory tree ⟨entries, 0, 0⟩
  require
    (state.actualCount = manifest.entries.length ∧ state.actualSize = manifest.totalSize) .missing
  require (∀ entry ∈ state.entries, entry.seen = true) .missing
  pure ⟨state.entries, manifest.totalSize⟩

end Tree

end VitaDebugger.AgentProtocol
