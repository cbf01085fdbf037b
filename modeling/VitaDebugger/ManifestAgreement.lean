import VitaDebugger.ManifestParse

/-! The agent's check of a package tree: a tree that its manifest accounts for is accepted. -/

namespace VitaDebugger.ManifestAgreement
open List
open AgentProtocol AsciiText BinarySearch Fallible HostManifest HostWalk ManifestParse PackagePaths
  PackageTree

variable {entry : VdevManifestEntry}

section Entries
variable {entries : List VdevManifestEntry}

/-- The entries with those of the given paths seen. -/
def marked (entries : List VdevManifestEntry) (done : List Path) : List VdevManifestEntry :=
  entries.map fun entry => { entry with seen := decide (entry.path ∈ done) }

theorem pathAt_of {i : ℕ} (hp : entries[i]? = some entry) : pathAt entries i = entry.path := by
  rw [pathAt, hp]
  rfl

theorem pathAt_marked (done : List Path) (i : ℕ) :
    pathAt (marked entries done) i = pathAt entries i := by
  simp only [pathAt, marked, getElem?_map, Option.map_map]
  rfl

theorem findManifestEntry_marked (done : List Path) (path : Bytes) :
    findManifestEntry (marked entries done) path = findManifestEntry entries path := by
  have hl : (marked entries done).length = entries.length := length_map _
  simp only [findManifestEntry, pathAt_marked, hl]

theorem findManifestEntry_of (ho : entries.Pairwise fun left r => left.path < r.path)
    {ind : ℕ} (hp : entries[ind]? = some entry) :
    findManifestEntry entries entry.path = some ind := by
  obtain ⟨hb, rfl⟩ := List.getElem?_eq_some_iff.mp hp
  have hr := pairwise_iff_getElem.mp ho
  apply search_found (by omega) (Nat.zero_le _) hb
  · rw [pathAt_of hp, strcmp_eq]
  · intro i hbe
    have hi : i < entries.length := by omega
    rw [pathAt_of (getElem?_eq_getElem hi), strcmp_gt]
    exact hr i ind hi hb hbe
  · intro i hbh hi
    rw [pathAt_of (getElem?_eq_getElem hi), strcmp_lt]
    exact hr ind i hb hi hbh

theorem marked_set (ho : entries.Pairwise fun left r => left.path < r.path) {i : ℕ}
    {done : List Path} (hp : entries[i]? = some entry) :
    (marked entries done).set i { entry with seen := true } =
      marked entries (entry.path :: done) := by
  obtain ⟨hb, rfl⟩ := List.getElem?_eq_some_iff.mp hp
  apply ext_getElem?
  intro o
  rw [getElem?_set]
  simp only [marked, getElem?_map, length_map, hb, if_true]
  split
  · rename_i hs
    rw [← hs, hp]
    simp
  rename_i hun
  cases ht : entries[o]? with
  | none => rfl
  | some entry =>
    obtain ⟨hi, rfl⟩ := List.getElem?_eq_some_iff.mp ht
    have hd : entries[o].path ≠ entries[i].path := by
      intro hs
      have hf := findManifestEntry_of ho hp
      rw [← hs, findManifestEntry_of ho ht] at hf
      exact hun (Option.some.inj hf).symm
    simp [hd]

theorem manifestHasDescendant_marked {done : List Path} {d : Path}
    (hi : entry ∈ entries) (hb : d ++ [47] <+: entry.path) :
    manifestHasDescendant (marked entries done) d = true := by
  obtain ⟨rest, hw⟩ := hb
  refine any_eq_true.mpr ⟨_, mem_map.mpr ⟨entry, hi, rfl⟩, ?_⟩
  rw [← hw]
  simp

end Entries

/-- What the agent's walk rests on: an ordered manifest of valid paths that are not too deep. -/
structure Trusted (entries : List VdevManifestEntry) : Prop where
  ordered : entries.Pairwise fun left right => left.path < right.path
  valid : ∀ entry ∈ entries, validateRelativePath entry.path = true
  shallow : ∀ entry ∈ entries, entry.path.count 47 ≤ 32

section Tree
variable {sha256 : Bytes → Bytes} {dir : Bytes}
  {entries : List VdevManifestEntry}

/-- A node of the tree that the manifest accounts for. -/
def Admits (sha256 : Bytes → Bytes) (entries : List VdevManifestEntry) : Path × NodeKind → Prop
  | (path, .file content) =>
    ∃ entry ∈ entries, entry.path = path ∧ entry.size = content.length ∧
      entry.sha256 = sha256 content
  | (_, .special _) => False
  | (path, .directory) => ∃ entry ∈ entries, path ++ [47] <+: entry.path

/-- A node that entries of valid paths account for has a valid path. -/
theorem admits_valid (valid : ∀ entry ∈ entries, validateRelativePath entry.path = true)
    {node : Path × NodeKind} (ha : Admits sha256 entries node) :
    validateRelativePath node.1 = true := by
  obtain ⟨path, kind⟩ := node
  cases kind with
  | file c =>
    obtain ⟨entry, inside, rfl, _⟩ := ha
    exact valid entry inside
  | special links => exact ha.elim
  | directory =>
    obtain ⟨entry, inside, ⟨tail, whole⟩⟩ := ha
    have shape : entry.path = path ++ 47 :: tail := by rw [← whole]; simp
    exact validateRelativePath_above (shape ▸ valid entry inside)

theorem verifyFile_ok (ho : entries.Pairwise fun left r => left.path < r.path)
    {p c : Bytes} {d : List Path} {count size : ℕ}
    (ha : Admits sha256 entries (p, .file c)) (hfr : p ∉ d)
    (hfi : size + c.length ≤ uint64Max) :
    verifyFile sha256 p c ⟨marked entries d, count, size⟩ =
      .ok ⟨marked entries (p :: d), count + 1, size + c.length⟩ := by
  obtain ⟨entry, hi, rfl, hsi, hh⟩ := ha
  obtain ⟨i, hb, rfl⟩ := getElem_of_mem hi
  have hp := getElem?_eq_getElem hb
  have hf := findManifestEntry_of ho hp
  have hmp : (marked entries d)[i]? =
      some { entries[i] with seen := decide (entries[i].path ∈ d) } := by
    rw [marked, getElem?_map, hp]
    rfl
  simp only [verifyFile, findManifestEntry_marked, hf, hmp, bind_ok, require_ok]
  refine ⟨(), decide_eq_false hfr, sha256 c, ?_, (), hh.symm, (), ?_, ?_⟩
  · rw [vdevSha256File, if_neg (not_not.mpr hsi.symm)]
  · omega
  · rw [marked_set ho hp, hsi]
    rfl

theorem relativePath_ok {r n : Path}
    (joined : vdevPathJoin vdevPathMax dir (under r n) = true)
    (hv : validateRelativePath (under r n) = true) :
    relativePath dir r n = .ok (under r n) := by
  have hb := (validateRelativePath_iff.mp hv).2.1
  have hn := (name_of_valid hv).1
  have hw : r.length + (if r.length ≠ 0 then 1 else 0) + n.length =
      (under r n).length := by
    by_cases hr : r = []
    · simp [under, hr]
    · simp [under, hr]
      omega
  simp only [relativePath, bind_ok, require_ok]
  refine ⟨(), ⟨?_, ?_⟩, (), hv, (), joined, rfl⟩
  · exact fun he => hn (length_eq_zero_iff.mp he)
  · rw [hw]
    exact Nat.succ_le_succ hb

/-- How deep the agent stands in a directory. -/
def level (relative : Path) : ℕ := if relative = [] then 0 else relative.count 47 + 1

theorem level_under (r name : Path) (hn : name ≠ []) : level r + 1 ≤ level (under r name) := by
  by_cases hr : r = []
  · simp [level, under, hr, hn]
  · simp [level, under, hr]

theorem openDirectory_ok {path : Path} {d : ℕ} (joined : vdevPathJoin vdevPathMax dir path = true)
    (hv : validateRelativePath path = true) (hs : d ≤ 32) :
    openDirectory dir path d = .ok () := by
  simp only [openDirectory, bind_ok, require_ok, if_neg (validateRelativePath_iff.mp hv).1]
  exact ⟨(), hs, joined⟩

/-- The agent's loop over the entries of a directory: it sees each file below once. -/
theorem verifyEntries_ok (ht : Trusted entries)
    {r : Path} {d : ℕ} {tree : Entries} {done : List Path} {count size : ℕ}
    (joined : ∀ node ∈ nodes r tree, vdevPathJoin vdevPathMax dir node.1 = true)
    (hst : d ≤ level r)
    (ha : ∀ node ∈ nodes r tree, Admits sha256 entries node)
    (ho : ((files r tree).map Prod.fst).Nodup)
    (hf : ∀ file ∈ files r tree, file.1 ∉ done)
    (hfi : size + contentSize (files r tree) ≤ uint64Max) :
    ∃ a, (∀ path, path ∈ a ↔ path ∈ done ∨ path ∈ (files r tree).map Prod.fst) ∧
      verifyEntries sha256 dir r d tree ⟨marked entries done, count, size⟩ =
        .ok ⟨marked entries a, count + (files r tree).length,
          size + contentSize (files r tree)⟩ := by
  induction tree generalizing r d done count size with
  | nil => exact ⟨done, fun path => by simp [files, nodes], rfl⟩
  | file n c rest ih =>
    have listed : files r (.file n c rest) =
        (under r n, c) :: files r rest := rfl
    rw [listed] at ho hf hfi ⊢
    obtain ⟨first_admitted, rest_admitted⟩ := forall_mem_cons.mp ha
    obtain ⟨first_joined, rest_joined⟩ := forall_mem_cons.mp joined
    obtain ⟨first_once, rest_once⟩ := nodup_cons.mp ho
    obtain ⟨first_fresh, rest_fresh⟩ := forall_mem_cons.mp hf
    have sum : contentSize ((under r n, c) :: files r rest) =
        c.length + contentSize (files r rest) := by simp [contentSize]
    have valid := admits_valid ht.valid first_admitted
    have unseen : ∀ file ∈ files r rest, file.1 ∉ under r n :: done := by
      intro file inside
      rw [mem_cons, not_or]
      refine ⟨?_, rest_fresh file inside⟩
      exact fun same => first_once (mem_map.mpr ⟨file, inside, same⟩)
    obtain ⟨a, holds, run⟩ := @ih r d (under r n :: done) (count + 1)
      (size + c.length) rest_joined hst rest_admitted rest_once unseen (by omega)
    refine ⟨a, fun path => ?_, ?_⟩
    · rw [holds, map_cons, mem_cons, mem_cons]
      tauto
    rw [verifyEntries, if_neg (by rw [(name_of_valid valid).2]; decide)]
    refine bind_ok.mpr ⟨_, relativePath_ok first_joined valid, bind_ok.mpr ⟨_, ?_, run.trans ?_⟩⟩
    · exact verifyFile_ok ht.ordered first_admitted first_fresh (by omega)
    rw [length_cons]
    congr 2 <;> omega
  | special n links rest ih => exact (ha _ mem_cons_self).elim
  | directory n i rest inner_ih rest_ih =>
    rw [files_directory] at ho hf hfi ⊢
    obtain ⟨first_admitted, below_admitted⟩ := forall_mem_cons.mp ha
    obtain ⟨inner_admitted, rest_admitted⟩ := forall_mem_append.mp below_admitted
    obtain ⟨first_joined, below_joined⟩ := forall_mem_cons.mp joined
    obtain ⟨inner_joined, rest_joined⟩ := forall_mem_append.mp below_joined
    obtain ⟨inner_fresh, rest_fresh⟩ := forall_mem_append.mp hf
    rw [map_append, nodup_append] at ho
    obtain ⟨inner_once, rest_once, apart⟩ := ho
    have sum : contentSize (files (under r n) i ++ files r rest) =
        contentSize (files (under r n) i) + contentSize (files r rest) := by
      simp [contentSize]
    rw [sum] at hfi ⊢
    have valid := admits_valid ht.valid first_admitted
    obtain ⟨entry, inside, ⟨tail, whole⟩⟩ := first_admitted
    have path_shape : entry.path = under r n ++ 47 :: tail := by rw [← whole]; simp
    have named := name_of_valid valid
    have deeper := level_under r n named.1
    have shallow : level (under r n) ≤ 32 := by
      have slashes := ht.shallow entry inside
      rw [path_shape, count_append, count_cons_self] at slashes
      unfold level
      split <;> omega
    obtain ⟨middle, middle_holds, inner_run⟩ := @inner_ih (under r n) (d + 1) done
      count size inner_joined (by omega) inner_admitted inner_once inner_fresh (by omega)
    have unseen : ∀ file ∈ files r rest, file.1 ∉ middle := by
      intro file listed
      rw [middle_holds, not_or]
      refine ⟨rest_fresh file listed, fun other => ?_⟩
      exact apart _ other _ (mem_map_of_mem listed) rfl
    obtain ⟨a, after_holds, rest_run⟩ := @rest_ih r d middle
      (count + (files (under r n) i).length)
      (size + contentSize (files (under r n) i)) rest_joined hst rest_admitted rest_once unseen
      (by omega)
    refine ⟨a, fun path => ?_, ?_⟩
    · rw [after_holds, middle_holds, map_append, mem_append, or_assoc]
    rw [verifyEntries, if_neg (by rw [named.2]; decide)]
    refine bind_ok.mpr ⟨_, relativePath_ok first_joined valid, bind_ok.mpr ⟨(), ?_, ?_⟩⟩
    · exact require_ok.mpr (manifestHasDescendant_marked inside ⟨tail, whole⟩)
    refine bind_ok.mpr ⟨(), openDirectory_ok first_joined valid (by omega), ?_⟩
    refine bind_ok.mpr ⟨_, inner_run, rest_run.trans ?_⟩
    rw [length_append]
    congr 2 <;> omega

/-- A manifest entry as the size and the digest of a path, and what a file has there. -/
def listed (entry : VdevManifestEntry) : Path × ℕ × Bytes :=
  (entry.path, entry.size, entry.sha256)

def measured (sha256 : Bytes → Bytes) (file : Path × Bytes) : Path × ℕ × Bytes :=
  (file.1, file.2.length, sha256 file.2)

theorem nodup_paths (ho : entries.Pairwise fun left r => left.path < r.path) :
    (entries.map (·.path)).Nodup := by
  refine pairwise_map.mpr (ho.imp fun {left r} hl hs => ?_)
  rw [hs] at hl
  exact List.lt_irrefl _ hl

/-- A tree that the manifest accounts for, with a file for each of its entries, is accepted. -/
theorem vdevVerifyPackageTree_ok {manifest : VdevManifest} {tree : Entries}
    (ht : Trusted manifest.entries) (root : dir.length + 1 ≤ vdevPathMax)
    (joined : ∀ node ∈ nodes [] tree, vdevPathJoin vdevPathMax dir node.1 = true)
    (ha : ∀ node ∈ nodes [] tree, Admits sha256 manifest.entries node)
    (hs : (manifest.entries.map listed).Perm ((files [] tree).map (measured sha256)))
    (hsu : manifest.totalSize = (manifest.entries.map (·.size)).sum)
    (hf : manifest.totalSize ≤ uint64Max) :
    ∃ v, vdevVerifyPackageTree sha256 dir manifest tree = .ok v := by
  have hp : (manifest.entries.map (·.path)).Perm ((files [] tree).map Prod.fst) := by
    simpa [Function.comp_def, listed, measured] using hs.map Prod.fst
  have hz : contentSize (files [] tree) = manifest.totalSize := by
    have hz := (hs.map (·.2.1)).sum_nat
    simp only [map_map, Function.comp_def, listed, measured] at hz
    exact (hsu.trans hz).symm
  have hu : manifest.entries.map (fun entry => { entry with seen := false }) =
      marked manifest.entries [] := by
    simp [marked]
  obtain ⟨a, hh, run⟩ := @verifyEntries_ok sha256 dir _ ht [] 0 tree [] 0 0 joined
    (Nat.zero_le _) ha (hp.nodup_iff.mp (nodup_paths ht.ordered)) (fun _ _ => not_mem_nil)
      (by omega)
  refine ⟨⟨marked manifest.entries a, manifest.totalSize⟩, ?_⟩
  simp only [vdevVerifyPackageTree, verifyDirectory, openDirectory, hu, bind_ok, require_ok,
    if_true]
  refine ⟨_, ⟨(), ⟨(), Nat.zero_le _, root⟩, run⟩, (), ⟨?_, ?_⟩, (), ?_, rfl⟩
  · simpa using hs.length_eq.symm
  · rw [hz]
    exact Nat.zero_add _
  intro entry hi
  obtain ⟨original, hl, rfl⟩ := mem_map.mp hi
  exact decide_eq_true ((hh _).mpr (Or.inr (hp.mem_iff.mp (mem_map_of_mem hl))))

end Tree

/-- A file of the manifest as the host writes it. -/
def hostEntry (entry : VdevManifestEntry) : ManifestEntry :=
  ⟨LowerHex.encode entry.sha256, entry.size, entry.path⟩

/-- A digest for the examples: 32 bytes that depend on the length alone. -/
def lengthDigest (data : Bytes) : Bytes := List.replicate 32 (UInt8.ofNat data.length)

/-- Two files, one of them in a directory. -/
def smallPackage : Entries :=
  .file (ascii "eboot.bin") [1, 2]
    (.directory (ascii "sce_sys") (.file (ascii "param.sfo") [3] .nil) .nil)

end VitaDebugger.ManifestAgreement
