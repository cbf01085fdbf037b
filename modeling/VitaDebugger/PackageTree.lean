import Mathlib.Data.Nat.Notation
import Mathlib.Data.List.Basic
import VitaDebugger.Bytes

/-! Directory trees of a package, and paths relative to its root. -/

namespace VitaDebugger.PackageTree

abbrev Path := Bytes

/-- The entries of a directory in the order a reader meets them. A special entry is neither a
regular file nor a directory; it may be a link to a directory. -/
inductive Entries where
  | nil
  | file (name content : Bytes) (rest : Entries)
  | special (name : Bytes) (linksDirectory : Bool) (rest : Entries)
  | directory (name : Bytes) (inner rest : Entries)
  deriving DecidableEq

inductive NodeKind where
  | file (content : Bytes)
  | special (linksDirectory : Bool)
  | directory
  deriving DecidableEq

/-- The path of a name in a directory; the root itself has the empty path. -/
def under (relative name : Path) : Path :=
  if relative = [] then name else relative ++ 47 :: name

/-- Everything below a directory, with its path. -/
def nodes (relative : Path) : Entries → List (Path × NodeKind)
  | .nil => []
  | .file name content rest => (under relative name, .file content) :: nodes relative rest
  | .special name links rest => (under relative name, .special links) :: nodes relative rest
  | .directory name inner rest =>
    (under relative name, .directory) :: (nodes (under relative name) inner ++ nodes relative rest)

def fileOf : Path × NodeKind → Option (Path × Bytes)
  | (path, .file content) => some (path, content)
  | _ => none

/-- The regular files of a tree. -/
def files (relative : Path) (entries : Entries) : List (Path × Bytes) :=
  (nodes relative entries).filterMap fileOf

/-- Two trees with the same nodes; their readers may meet them in different orders. -/
def Identical (left right : Entries) : Prop := (nodes [] left).Perm (nodes [] right)

theorem mem_files {r path c : Path} {es : Entries} :
    (path, c) ∈ files r es ↔ (path, .file c) ∈ nodes r es := by
  rw [files, List.mem_filterMap]
  constructor
  · rintro ⟨⟨found, kind⟩, inside, file⟩
    cases kind with
    | file _ =>
      cases file
      exact inside
    | special _ => cases file
    | directory => cases file
  · exact fun inside => ⟨_, inside, rfl⟩

theorem files_directory (r name : Path) (i rest : Entries) :
    files r (.directory name i rest) =
      files (under r name) i ++ files r rest := by
  simp only [files, nodes, List.filterMap_cons, fileOf, List.filterMap_append]

end VitaDebugger.PackageTree
