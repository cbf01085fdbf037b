import VitaDebugger.TreeVerification

/-! Packages of the deployment host against the agent's check. The agent takes the manifest and
the tree of exactly the packages that keep to the agent's own limits; the host does not enforce
them all. -/

namespace VitaDebugger.PackageAgreement
open List
open AgentProtocol AsciiText Fallible HostManifest HostWalk ManifestAgreement ManifestParse
open PackagePaths PackageTree TreeVerification

section Agreement
variable {sha256 : Bytes → Bytes} {maxFiles maxTotalSize : ℕ}
  {packageDirectory : Bytes} {package tree : Entries} {manifest : Manifest}
  {candidates : List (Path × Bytes)}

/-- A package within the agent's limits, below the directory that it is checked in. -/
structure WithinLimits (packageDirectory : Path) (package : Entries) : Prop where
  count : (files [] package).length ≤ vdevMaxFiles
  total : contentSize (files [] package) ≤ vdevMaxTotalSize
  small : ∀ file ∈ files [] package, file.2.length ≤ vdevMaxFileSize
  shallow : ∀ file ∈ files [] package, file.1.count 47 ≤ vdevTreeMaxDepth
  occupied : ∀ node ∈ nodes [] package, node.2 = .directory →
    ∃ file ∈ files [] package, node.1 ++ [47] <+: file.1
  root : packageDirectory.length + 1 ≤ vdevPathMax
  joined : ∀ node ∈ nodes [] package, vdevPathJoin vdevPathMax packageDirectory node.1 = true

theorem contentSize_perm {left right : List (Path × Bytes)} (same : left.Perm right) :
    contentSize left = contentSize right := by
  unfold contentSize
  exact (same.map _).sum_nat

theorem sizes_parsed (candidates : List (Path × Bytes)) :
    sizes (candidates.map (parsedEntry sha256)) = contentSize candidates := by
  rw [sizes, map_map]
  rfl

/-- The rows that the host wrote of a package within the limits. -/
theorem WithinLimits.acceptable (limits : WithinLimits packageDirectory package)
    (digest : ∀ data, (sha256 data).length = 32)
    (listing : Listed sha256 maxFiles maxTotalSize package manifest candidates) :
    Acceptable (candidates.map (parsedEntry sha256)) where
  digest := forall_mem_map.mpr fun file _ => digest file.2
  fresh := forall_mem_map.mpr fun _ _ => rfl
  valid := forall_mem_map.mpr listing.valid
  small := forall_mem_map.mpr fun file inside =>
    limits.small file (listing.all.mem_iff.mp inside)
  distinct := pairwise_map.mpr listing.distinct
  ordered := pairwise_map.mpr listing.ordered
  count := by
    rw [length_map, listing.all.length_eq]
    exact limits.count
  total := by
    rw [sizes_parsed, contentSize_perm listing.all]
    exact limits.total

/-- The manifest accounts for every node of a tree identical to the package. -/
theorem WithinLimits.admits (limits : WithinLimits packageDirectory package)
    (listing : Listed sha256 maxFiles maxTotalSize package manifest candidates)
    {node : Path × NodeKind} (inside : node ∈ nodes [] package) :
    Admits sha256 (candidates.map (parsedEntry sha256)) node := by
  obtain ⟨path, kind⟩ := node
  cases kind with
  | file content =>
    have listed := listing.all.mem_iff.mpr (mem_files.mpr inside)
    exact ⟨_, mem_map_of_mem listed, rfl, rfl, rfl⟩
  | special links => exact listing.plain _ inside links rfl
  | directory =>
    obtain ⟨file, below, leads⟩ := limits.occupied _ inside rfl
    exact ⟨_, mem_map_of_mem (listing.all.mem_iff.mpr below), leads⟩

theorem WithinLimits.accepted (limits : WithinLimits packageDirectory package)
    (digest : ∀ data, (sha256 data).length = 32) (some_file : files [] package ≠ [])
    (listing : Listed sha256 maxFiles maxTotalSize package manifest candidates)
    (identical : Identical tree package) :
    ∃ parsed verified, vdevParseManifest manifest.data = .ok parsed ∧
      parsed.entries.map hostEntry = manifest.entries ∧ parsed.totalSize = manifest.totalSize ∧
      vdevVerifyPackageTree sha256 packageDirectory parsed tree = .ok verified := by
  have rows := limits.acceptable digest listing
  have same : (files [] tree).Perm (files [] package) := identical.filterMap fileOf
  have not_empty : candidates ≠ [] := fun empty =>
    some_file (perm_nil.mp (empty ▸ listing.all.symm))
  have trusted : Trusted (candidates.map (parsedEntry sha256)) :=
    { ordered := rows.ordered
      valid := rows.valid
      shallow := forall_mem_map.mpr fun file inside =>
        limits.shallow file (listing.all.mem_iff.mp inside) }
  have met : ((candidates.map (parsedEntry sha256)).map listed).Perm
      ((files [] tree).map (measured sha256)) := by
    rw [map_map]
    exact (listing.all.trans same.symm).map _
  obtain ⟨verified, run⟩ := @vdevVerifyPackageTree_ok sha256 packageDirectory
    ⟨candidates.map (parsedEntry sha256), contentSize candidates⟩ tree trusted limits.root
    (fun node inside => limits.joined node (identical.mem_iff.mp inside))
    (fun node inside => limits.admits listing (identical.mem_iff.mp inside)) met
    (by rw [map_map]; rfl)
    (@sizes_parsed sha256 candidates ▸ rows.total.trans (by decide))
  refine ⟨_, verified, ?_, ?_, ?_, run⟩
  · have read := vdevParseManifest_ok rows (by simpa using not_empty)
    rw [sizes_parsed] at read
    rw [listing.data, listing.entries, ← read, flatMap_map, flatMap_map]
    rfl
  · rw [listing.entries, List.map_map]
    rfl
  · exact listing.summed.symm

/-- What the agent accepts with the host's entries is within its limits. -/
theorem withinLimits_of_accepted
    (listing : Listed sha256 maxFiles maxTotalSize package manifest candidates)
    (identical : Identical tree package) (proper : named tree = true)
    {parsed verified : VdevManifest} (read : vdevParseManifest manifest.data = .ok parsed)
    (entries : parsed.entries.map hostEntry = manifest.entries)
    (total : parsed.totalSize = manifest.totalSize)
    (run : vdevVerifyPackageTree sha256 packageDirectory parsed tree = .ok verified) :
    WithinLimits packageDirectory package := by
  have sound := vdevParseManifest_sound read
  have host : parsed.entries.map hostEntry = candidates.map (entryOf sha256) :=
    entries.trans listing.entries
  -- the rows read are those the host wrote, so entries and files name each other
  have entry_of : ∀ file ∈ files [] package,
      ∃ entry ∈ parsed.entries, entry.size = file.2.length ∧ entry.path = file.1 := by
    intro file inside
    have row : entryOf sha256 file ∈ parsed.entries.map hostEntry :=
      host ▸ mem_map_of_mem (listing.all.mem_iff.mpr inside)
    obtain ⟨entry, member, same⟩ := mem_map.mp row
    exact ⟨entry, member, congrArg ManifestEntry.size same, congrArg ManifestEntry.path same⟩
  have file_of : ∀ entry ∈ parsed.entries, ∃ file ∈ files [] package, file.1 = entry.path := by
    intro entry member
    have row : hostEntry entry ∈ candidates.map (entryOf sha256) := host ▸ mem_map_of_mem member
    obtain ⟨file, inside, same⟩ := mem_map.mp row
    exact ⟨file, listing.all.mem_iff.mp inside, congrArg ManifestEntry.path same⟩
  obtain ⟨root, admitted, -⟩ :=
    vdevVerifyPackageTree_admits (isChain_iff_pairwise.mp sound.ordered) proper run
  have kept := fun node (inside : node ∈ nodes [] package) =>
    admitted node (identical.mem_iff.mpr inside)
  refine ⟨?_, ?_, fun file inside => ?_, fun file inside => ?_, fun node inside kind => ?_, root,
    fun node inside => (kept node inside).2.2⟩
  · have lengths := congrArg length host
    rw [length_map, length_map, listing.all.length_eq] at lengths
    exact lengths ▸ sound.count
  · rw [← contentSize_perm listing.all, ← listing.summed, ← total]
    exact sound.bounded
  · obtain ⟨entry, member, size, -⟩ := entry_of file inside
    exact size ▸ sound.small entry member
  · exact (kept (file.1, .file file.2) (mem_files.mp inside)).2.1
  · obtain ⟨path, _⟩ := node
    cases kind
    obtain ⟨entry, member, leads⟩ := (kept _ inside).1
    obtain ⟨file, below, same⟩ := file_of entry member
    exact ⟨file, below, same ▸ leads⟩

/-- The agent reads the manifest of a host package with the host's entries and accepts a tree
identical to it just if the package is within the agent's limits. -/
theorem package_acceptable (digest : ∀ data, (sha256 data).length = 32)
    (built : buildManifest sha256 maxFiles maxTotalSize package = .ok manifest)
    (some_file : files [] package ≠ []) (identical : Identical tree package)
    (proper : named tree = true) :
    (∃ parsed verified, vdevParseManifest manifest.data = .ok parsed ∧
      parsed.entries.map hostEntry = manifest.entries ∧ parsed.totalSize = manifest.totalSize ∧
      vdevVerifyPackageTree sha256 packageDirectory parsed tree = .ok verified) ↔
    WithinLimits packageDirectory package := by
  obtain ⟨candidates, listing⟩ := buildManifest_ok built
  constructor
  · rintro ⟨parsed, verified, read, entries, total, run⟩
    exact withinLimits_of_accepted listing identical proper read entries total run
  · intro limits
    exact limits.accepted digest some_file listing identical

end Agreement

theorem smallPackage_withinLimits : WithinLimits (ascii "ux0:data/package") smallPackage where
  count := by decide
  total := by decide
  small := by decide +kernel
  shallow := by decide +kernel
  occupied := by decide +kernel
  root := by decide
  joined := by decide +kernel

theorem package_acceptable_small : ∃ manifest,
    buildManifest lengthDigest 8192 (2 ^ 30) smallPackage = .ok manifest ∧
    ∃ parsed verified, vdevParseManifest manifest.data = .ok parsed ∧
      parsed.entries.map hostEntry = manifest.entries ∧ parsed.totalSize = manifest.totalSize ∧
      vdevVerifyPackageTree lengthDigest (ascii "ux0:data/package") parsed smallPackage =
        .ok verified := by
  have succeeds : (buildManifest lengthDigest 8192 (2 ^ 30) smallPackage).isOk = true := by
    decide +kernel
  cases built : buildManifest lengthDigest 8192 (2 ^ 30) smallPackage with
  | error error =>
    rw [built] at succeeds
    cases succeeds
  | ok manifest =>
    exact ⟨manifest, rfl, (package_acceptable (fun _ => length_replicate) built
      (by decide +kernel) (.refl _) (by decide +kernel)).mpr smallPackage_withinLimits⟩

/-- One file beside an empty directory, which the host's walk passes by. -/
def emptyDirectoryPackage : Entries :=
  .file (ascii "eboot.bin") [1, 2] (.directory (ascii "data") .nil .nil)

/-- The host makes a manifest for a package with an empty directory; the agent reads the
manifest and then refuses the same tree. -/
theorem package_empty_directory_refused : ∃ manifest parsed,
    buildManifest lengthDigest 8192 (2 ^ 30) emptyDirectoryPackage = .ok manifest ∧
      vdevParseManifest manifest.data = .ok parsed ∧
      vdevVerifyPackageTree lengthDigest (ascii "ux0:data/package") parsed emptyDirectoryPackage =
        .error .extra := by
  have run : (do
      let manifest ← (buildManifest lengthDigest 8192 (2 ^ 30) emptyDirectoryPackage).toOption
      let parsed ← (vdevParseManifest manifest.data).toOption
      pure (vdevVerifyPackageTree lengthDigest (ascii "ux0:data/package") parsed
        emptyDirectoryPackage)) = some (.error .extra) := by
    decide +kernel
  simp only [Option.bind_eq_bind, Option.bind_eq_some_iff, toOption_some,
    Option.pure_def, Option.some.injEq] at run
  obtain ⟨manifest, built, parsed, read, refused⟩ := run
  exact ⟨manifest, parsed, built, read, refused⟩

end VitaDebugger.PackageAgreement
