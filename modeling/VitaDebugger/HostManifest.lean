import Mathlib.Data.List.Sort
import VitaDebugger.AsciiText
import VitaDebugger.LowerHex
import VitaDebugger.PackageTree

/-! `manifest.py` and `paths.py` of the deployment host: which package trees get a manifest, and
its bytes. Names are the bytes the file system holds; a name that is not ASCII has bytes beyond
`0x7e`, so the path check refuses it in either form. -/

namespace VitaDebugger.HostManifest
open AsciiText LowerHex PackageTree

/-- The exceptions of `build_manifest`, with the path they name. -/
inductive HostError where
  | limitsNotPositive
  | emptyPath
  | nulByte
  | trailingSlash (path : Path)
  | absolutePath (path : Path)
  | forbiddenSeparator (path : Path)
  | notPrintable (path : Path)
  | tooLong (path : Path)
  | dotSegment (path : Path)
  | windowsAmbiguous (path : Path)
  | notPortable (path : Path)
  | reservedName (path : Path)
  | linkedDirectory (path : Path)
  | notCanonical (path : Path)
  | collision (path : Path)
  | notRegular (path : Path)
  | tooManyFiles (count : ℕ)
  | totalSize
  deriving DecidableEq

def refuseIf (condition : Prop) [Decidable condition] (e : HostError) : Except HostError Unit :=
  if condition then .error e else .ok ()

section Paths

def windowsInvalid : Bytes := ascii "<>\"|?*"

def windowsReserved : List Bytes :=
  [ascii "con", ascii "prn", ascii "aux", ascii "nul"] ++
    (List.range 9).map (fun i => ascii "com" ++ [UInt8.ofNat (49 + i)]) ++
    (List.range 9).map (fun i => ascii "lpt" ++ [UInt8.ofNat (49 + i)])

/-- `str.casefold` on the printable ASCII that reaches it. -/
def casefold (text : Bytes) : Bytes :=
  text.map fun c => if 65 ≤ c ∧ c ≤ 90 then c + 32 else c

structure NormalizedPath where
  value : Path
  collisionKey : Path
  deriving DecidableEq

def checkPart (raw part : Bytes) : Except HostError Unit := do
  refuseIf (part = [] ∨ part = [46] ∨ part = [46, 46]) (.dotSegment raw)
  refuseIf (part.getLast? = some 32 ∨ part.getLast? = some 46) (.windowsAmbiguous raw)
  refuseIf (part.any windowsInvalid.contains = true) (.notPortable raw)
  refuseIf (casefold (part.takeWhile (· != 46)) ∈ windowsReserved) (.reservedName raw)

def normalizePackagePath (raw : Bytes) : Except HostError NormalizedPath := do
  refuseIf (raw = []) .emptyPath
  refuseIf ((0 : UInt8) ∈ raw) .nulByte
  refuseIf (raw.getLast? = some 47) (.trailingSlash raw)
  refuseIf (raw.head? = some 47 ∨ raw.head? = some 92) (.absolutePath raw)
  refuseIf ((92 : UInt8) ∈ raw ∨ (58 : UInt8) ∈ raw) (.forbiddenSeparator raw)
  refuseIf (raw.any (fun c => decide (c < 0x20 ∨ c > 0x7e)) = true) (.notPrintable raw)
  refuseIf (raw.length > 240) (.tooLong raw)
  let parts := raw.splitOn 47
  parts.forM (checkPart raw)
  let value := [(47 : UInt8)].intercalate parts
  pure ⟨value, casefold value⟩

end Paths

section Walk

structure Scan where
  candidates : List (Path × Bytes)
  collisionKeys : List Path

/-- The subdirectories of one directory must not be links. -/
def checkLinks (relative : Path) : Entries → Except HostError Unit
  | .nil => .ok ()
  | .file _ _ rest => checkLinks relative rest
  | .special name links rest => do
    refuseIf (links = true) (.linkedDirectory (under relative name))
    checkLinks relative rest
  | .directory _ _ rest => checkLinks relative rest

/-- One file name: its path is checked before its type. -/
def scanName (relative name : Path) (content : Option Bytes) (scan : Scan) :
    Except HostError Scan := do
  let path := under relative name
  let normalized ← normalizePackagePath path
  refuseIf (normalized.value ≠ path) (.notCanonical path)
  refuseIf (normalized.collisionKey ∈ scan.collisionKeys) (.collision path)
  match content with
  | none => .error (.notRegular path)
  | some content =>
    pure ⟨scan.candidates ++ [(path, content)], normalized.collisionKey :: scan.collisionKeys⟩

/-- The files of one directory. -/
def walkFiles (relative : Path) : Entries → Scan → Except HostError Scan
  | .nil, scan => .ok scan
  | .file name content rest, scan => do
    let scan ← scanName relative name (some content) scan
    walkFiles relative rest scan
  | .special name links rest, scan =>
    if links then walkFiles relative rest scan
    else do
      let scan ← scanName relative name none scan
      walkFiles relative rest scan
  | .directory _ _ rest, scan => walkFiles relative rest scan

/-- The directories below one, each with its own files first. -/
def walkBelow (relative : Path) : Entries → Scan → Except HostError Scan
  | .nil, scan => .ok scan
  | .file _ _ rest, scan => walkBelow relative rest scan
  | .special _ _ rest, scan => walkBelow relative rest scan
  | .directory name inner rest, scan => do
    checkLinks (under relative name) inner
    let scan ← walkFiles (under relative name) inner scan
    let scan ← walkBelow (under relative name) inner scan
    walkBelow relative rest scan

def walk (package : Entries) : Except HostError Scan := do
  checkLinks [] package
  let scan ← walkFiles [] package ⟨[], []⟩
  walkBelow [] package scan

end Walk

structure ManifestEntry where
  sha256 : Bytes
  size : ℕ
  path : Path
  deriving DecidableEq

structure Manifest where
  data : Bytes
  entries : List ManifestEntry
  fileCount : ℕ
  totalSize : ℕ
  sha256 : Bytes
  deriving DecidableEq

def manifestHeader : Bytes := ascii "VITADEVDEPLOY-MANIFEST-1" ++ [10]

def manifestRowText (entry : ManifestEntry) : Bytes :=
  entry.sha256 ++ [9] ++ decimal entry.size ++ [9] ++ entry.path ++ [10]

section Build
variable (sha256 : Bytes → Bytes) (maxFiles maxTotalSize : ℕ)

/-- The entries of sorted candidates, with the total size before them. -/
def collectEntries (total : ℕ) : List (Path × Bytes) →
    Except HostError (List ManifestEntry × ℕ)
  | [] => .ok ([], total)
  | (path, content) :: rest => do
    refuseIf (total + content.length > maxTotalSize) .totalSize
    let (entries, total) ← collectEntries (total + content.length) rest
    pure (⟨encode (sha256 content), content.length, path⟩ :: entries, total)

def sortedCandidates (candidates : List (Path × Bytes)) : List (Path × Bytes) :=
  candidates.insertionSort fun left right => left.1 ≤ right.1

def buildManifest (package : Entries) : Except HostError Manifest := do
  refuseIf (maxFiles = 0 ∨ maxTotalSize = 0) .limitsNotPositive
  let scan ← walk package
  let candidates := sortedCandidates scan.candidates
  refuseIf (candidates.length > maxFiles) (.tooManyFiles candidates.length)
  let (entries, totalSize) ← collectEntries sha256 maxTotalSize 0 candidates
  let data := manifestHeader ++ entries.flatMap manifestRowText
  pure ⟨data, entries, entries.length, totalSize, encode (sha256 data)⟩

end Build
end VitaDebugger.HostManifest
