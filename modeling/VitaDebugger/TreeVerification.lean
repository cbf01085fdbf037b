import Mathlib.Data.List.Chain
import VitaDebugger.ManifestAgreement

/-! The agent's check of a package tree is exact: it takes the trees whose files are those of
the manifest and whose directories lead to them, and no others. -/

namespace VitaDebugger.TreeVerification
open List
open AgentProtocol AsciiText BinarySearch Fallible ManifestAgreement ManifestParse
open PackagePaths PackageTree

/-- What `vdev_parse_manifest` has checked of the rows it took. -/
structure Sound (manifest : VdevManifest) : Prop where
  ordered : manifest.entries.IsChain fun left right => left.path < right.path
  valid : ∀ entry ∈ manifest.entries, validateRelativePath entry.path = true
  small : ∀ entry ∈ manifest.entries, entry.size ≤ vdevMaxFileSize
  count : manifest.entries.length ≤ vdevMaxFiles
  summed : manifest.totalSize = (manifest.entries.map (·.size)).sum
  bounded : manifest.totalSize ≤ vdevMaxTotalSize

theorem manifestRow_sound {m after : VdevManifest} {line : Bytes} (hs : Sound m)
    (h : manifestRow m line = .ok after) : Sound after := by
  simp only [manifestRow, bind_ok, require_ok] at h
  obtain ⟨⟨_, _, path⟩, -, _, room, _, -, size, -, _, small, _, hv, _, ho, _, -, _, -, _, ht,
    h⟩ := h
  cases h
  refine ⟨isChain_append.mpr ⟨hs.ordered, .singleton _, ?_⟩, ?_, ?_, ?_, ?_, ht⟩
  · simpa [strcmp_lt] using ho
  · simpa [or_imp, forall_and] using ⟨hs.valid, hv⟩
  · simpa [or_imp, forall_and] using ⟨hs.small, small⟩
  · rw [length_append, length_singleton]
    exact room
  · simp [hs.summed]

theorem vdevParseManifest_sound {m : VdevManifest} {data : Bytes}
    (h : vdevParseManifest data = .ok m) : Sound m :=
  vdevParseManifest_keeps ⟨.nil, by simp, by simp, Nat.zero_le _, rfl, Nat.zero_le _⟩
    (fun _ _ _ => manifestRow_sound) h

/-- A name that a directory can hold. -/
def properName (name : Path) : Bool := name != [] && !skipped name && !name.contains 47

def named : Entries → Bool
  | .nil => true
  | .file name _ rest | .special name _ rest => properName name && named rest
  | .directory name inner rest => properName name && named inner && named rest

def nesting : Entries → ℕ
  | .nil => 0
  | .file _ _ rest | .special _ _ rest => nesting rest
  | .directory _ inner rest => max (nesting inner + 1) (nesting rest)

variable {sha256 : Bytes → Bytes} {packageDirectory path c : Bytes}
  {es : List VdevManifestEntry} {done : List Path} {depth : ℕ} {state a : TreeState}
  {relative : Path} {tree : Entries}

theorem verifyFile_admits (ho : es.Pairwise fun left r => left.path < r.path)
    (hs : state.entries = marked es done)
    (h : verifyFile sha256 path c state = .ok a) :
    Admits sha256 es (path, .file c) ∧ a.entries = marked es (path :: done) := by
  unfold verifyFile at h
  rw [hs, findManifestEntry_marked] at h
  split at h
  · cases h
  rename_i index hf
  split at h
  · cases h
  rename_i expected he
  simp only [bind_ok, require_ok, vdevSha256File] at h
  obtain ⟨_, -, digest, hh, _, hd, _, -, h⟩ := h
  cases h
  split at hh
  · cases hh
  rename_i hz
  cases hh
  rw [marked, getElem?_map] at he
  obtain ⟨e, hp, rfl⟩ := Option.map_eq_some_iff.mp he
  have hc := search_sound hf
  rw [pathAt_of hp, strcmp_eq] at hc
  subst hc
  refine ⟨⟨e, mem_of_getElem? hp, rfl, (not_not.mp hz).symm, hd.symm⟩, ?_⟩
  exact (marked_set ho hp :)

theorem manifestHasDescendant_sound {d : Path}
    (h : manifestHasDescendant (marked es done) d = true) :
    ∃ e ∈ es, d ++ [47] <+: e.path := by
  obtain ⟨_, hm, hb⟩ := any_eq_true.mp h
  obtain ⟨e, hi, rfl⟩ := mem_map.mp hm
  simp only [Bool.and_eq_true, beq_iff_eq] at hb
  refine ⟨e, hi, prefix_iff_eq_take.mpr ?_⟩
  rw [length_append, length_singleton, take_add_one, hb.1, hb.2]
  rfl

/-- The slashes of a name's path, and the level of the directory it may be. -/
theorem slashes_under {n : Path} (hn : properName n = true) :
    (under relative n).count 47 = level relative ∧
      level (under relative n) = level relative + 1 := by
  simp only [properName, Bool.and_eq_true, bne_iff_ne, Bool.not_eq_true', ← Bool.not_eq_true,
    contains_iff_mem] at hn
  have hc : (under relative n).count 47 = level relative := by
    unfold under level
    split
    · exact count_eq_zero.mpr hn.2
    · rw [count_append, count_cons_self, count_eq_zero.mpr hn.2]
  have he : under relative n ≠ [] := by
    unfold under
    split <;> simp [hn.1.1]
  exact ⟨hc, (if_neg he).trans (by rw [hc])⟩

/-- The loop over a directory that ends well: the manifest accounts for every node below, whose
path fits and is not too deep, and the entries seen are those of files that were met. -/
theorem verifyEntries_admits (ho : es.Pairwise fun left r => left.path < r.path)
    (hn : named tree = true) (hs : state.entries = marked es done) (hl : level relative = depth)
    (hd : depth ≤ vdevTreeMaxDepth)
    (h : verifyEntries sha256 packageDirectory relative depth tree state = .ok a) :
    (∀ node ∈ nodes relative tree, Admits sha256 es node ∧ node.1.count 47 ≤ vdevTreeMaxDepth ∧
      vdevPathJoin vdevPathMax packageDirectory node.1 = true) ∧
      ∃ s, a.entries = marked es s ∧
        ∀ path ∈ s, path ∈ done ∨ path ∈ (files relative tree).map Prod.fst := by
  induction tree generalizing relative depth done state a with
  | nil =>
    cases h
    exact ⟨nofun, done, hs, fun _ => .inl⟩
  | file n c rs ih =>
    simp only [named, Bool.and_eq_true] at hn
    have slashes := @slashes_under relative n hn.1
    simp only [properName, Bool.and_eq_true, Bool.not_eq_true'] at hn
    rw [verifyEntries, hn.1.1.2] at h
    simp only [Bool.false_eq_true, if_false, bind_ok, relativePath, require_ok] at h
    obtain ⟨_, ⟨_, -, _, -, _, joined, hr⟩, b, hf, h⟩ := h
    cases hr
    obtain ⟨ha, hb⟩ := verifyFile_admits ho hs hf
    obtain ⟨hr, s, hse, met⟩ := ih hn.2 hb hl hd h
    refine ⟨forall_mem_cons.mpr ⟨⟨ha, ?_, joined⟩, hr⟩, s, hse, fun path hp => ?_⟩
    · exact (slashes.1.trans hl).trans_le hd
    have split : files relative (.file n c rs) =
      (under relative n, c) :: files relative rs := rfl
    rw [split, map_cons, mem_cons, or_left_comm, ← or_assoc, ← mem_cons]
    exact met path hp
  | special n links rs ih =>
    simp only [named, properName, Bool.and_eq_true, Bool.not_eq_true'] at hn
    rw [verifyEntries, hn.1.1.2] at h
    simp only [Bool.false_eq_true, if_false, bind_ok] at h
    obtain ⟨_, _, h⟩ := h
    cases h
  | directory n inner rs hii hri =>
    simp only [named, Bool.and_eq_true] at hn
    have slashes := @slashes_under relative n hn.1.1
    simp only [properName, Bool.and_eq_true, Bool.not_eq_true'] at hn
    rw [verifyEntries, hn.1.1.1.2] at h
    simp only [Bool.false_eq_true, if_false, bind_ok, relativePath, openDirectory, require_ok] at h
    obtain ⟨_, ⟨_, -, _, -, _, joined, hr⟩, _, hb, _, ⟨_, deep, -⟩, b, hi, h⟩ := h
    cases hr
    obtain ⟨hia, met, hm, him⟩ := hii hn.1.2 hs (by rw [slashes.2, hl]) deep hi
    obtain ⟨hra, s, hse, all⟩ := hri hn.2 hm hl hd h
    refine ⟨forall_mem_cons.mpr ⟨⟨?_, ?_, joined⟩, forall_mem_append.mpr ⟨hia, hra⟩⟩, s, hse,
      fun path hp => ?_⟩
    · exact manifestHasDescendant_sound (hs ▸ hb)
    · exact (slashes.1.trans hl).trans_le hd
    rw [files_directory, map_append, mem_append, ← or_assoc]
    exact (all path hp).imp_left (him path)

theorem count_slashes (hn : named tree = true) {node : Path × NodeKind}
    (hi : node ∈ nodes relative tree) : node.1.count 47 ≤ level relative + nesting tree := by
  induction tree generalizing relative with
  | nil => cases hi
  | file name c rest ih | special name links rest ih =>
    simp only [named, Bool.and_eq_true] at hn
    rcases mem_cons.mp hi with rfl | hi
    · exact (slashes_under hn.1).1 ▸ Nat.le_add_right ..
    · exact ih hn.2 hi
  | directory name inner rest hii hri =>
    simp only [named, Bool.and_eq_true] at hn
    obtain ⟨hc, hl⟩ := @slashes_under relative _ hn.1.1
    rcases mem_cons.mp hi with rfl | hi
    · exact hc ▸ Nat.le_add_right ..
    unfold nesting
    rcases mem_append.mp hi with hi | hi
    · have := hii hn.1.2 hi
      omega
    · have := hri hn.2 hi
      omega

theorem files_sublist (l : List (Path × NodeKind)) :
    ((l.filterMap fileOf).map Prod.fst).Sublist (l.map Prod.fst) := by
  induction l with
  | nil => exact .slnil
  | cons node rest ih =>
    obtain ⟨path, kind⟩ := node
    cases kind with
    | file c => exact ih.cons_cons path
    | special links => exact ih.cons path
    | directory => exact ih.cons path

/-- The regular files of a tree, with their sizes and digests, are the entries of a manifest, and
every directory leads to one of them. -/
def Exact (sha256 : Bytes → Bytes) (manifest : VdevManifest) (tree : Entries) : Prop :=
  ((files [] tree).map (measured sha256) ⊆ manifest.entries.map listed ∧
    manifest.entries.map listed ⊆ (files [] tree).map (measured sha256)) ∧
  ∀ node ∈ nodes [] tree, node.2 = .directory →
    ∃ entry ∈ manifest.entries, node.1 ++ [47] <+: entry.path

/-- What an accepted tree tells of its nodes, and that each entry's file was met. -/
theorem vdevVerifyPackageTree_admits {manifest verified : VdevManifest}
    (ho : manifest.entries.Pairwise fun left r => left.path < r.path) (hn : named tree = true)
    (h : vdevVerifyPackageTree sha256 packageDirectory manifest tree = .ok verified) :
    packageDirectory.length + 1 ≤ vdevPathMax ∧
      (∀ node ∈ nodes [] tree, Admits sha256 manifest.entries node ∧
        node.1.count 47 ≤ vdevTreeMaxDepth ∧
        vdevPathJoin vdevPathMax packageDirectory node.1 = true) ∧
      ∀ entry ∈ manifest.entries, entry.path ∈ (files [] tree).map Prod.fst := by
  have hu : manifest.entries.map (fun e => { e with seen := false }) =
      marked manifest.entries [] := by
    simp [marked]
  simp only [vdevVerifyPackageTree, verifyDirectory, openDirectory, bind_ok, require_ok,
    if_true] at h
  obtain ⟨a, ⟨_, ⟨_, -, root⟩, hv⟩, _, -, _, all, -⟩ := h
  obtain ⟨ha, seen, hse, met⟩ := verifyEntries_admits ho hn hu rfl (Nat.zero_le _) hv
  refine ⟨root, ha, fun e hm => ?_⟩
  have hp := of_decide_eq_true (all _ (by rw [hse]; exact mem_map_of_mem hm))
  exact (met _ hp).resolve_left not_mem_nil

/-- The check of a tree succeeds exactly when the tree is that of the manifest and has nothing
beside files and directories. -/
theorem package_tree_exact {manifest : VdevManifest} {data : Bytes}
    (parsed : vdevParseManifest data = .ok manifest) (short : packageDirectory.length ≤ 526)
    (proper : named tree = true) (distinct : ((nodes [] tree).map Prod.fst).Nodup)
    (shallow : nesting tree ≤ 32) :
    (∃ verified, vdevVerifyPackageTree sha256 packageDirectory manifest tree = .ok verified) ↔
      Exact sha256 manifest tree ∧ ∀ node ∈ nodes [] tree, ∀ links, node.2 ≠ .special links := by
  have hs := vdevParseManifest_sound parsed
  have ho := isChain_iff_pairwise.mp hs.ordered
  constructor
  · rintro ⟨verified, h⟩
    obtain ⟨-, ha, met⟩ := vdevVerifyPackageTree_admits ho proper h
    refine ⟨⟨⟨fun item hi => ?_, fun item hi => ?_⟩, ?_⟩, ?_⟩
    · obtain ⟨⟨path, c⟩, hf, rfl⟩ := mem_map.mp hi
      obtain ⟨e, hm, rfl, hz, hh⟩ := (ha _ (mem_files.mp hf)).1
      exact mem_map.mpr ⟨e, hm, by rw [listed, measured, hz, hh]⟩
    · obtain ⟨e, hm, rfl⟩ := mem_map.mp hi
      obtain ⟨⟨path, c⟩, hf, rfl⟩ := mem_map.mp (met e hm)
      obtain ⟨other, hom, hop, hz, hh⟩ := (ha _ (mem_files.mp hf)).1
      obtain rfl := inj_on_of_nodup_map (nodup_paths ho) hom hm hop
      exact mem_map.mpr ⟨_, hf, by rw [listed, measured, hz, hh, hop]⟩
    · rintro ⟨path, _⟩ hn rfl
      exact (ha _ hn).1
    · rintro ⟨path, _⟩ hn links rfl
      exact (ha _ hn).1
  rintro ⟨⟨⟨hfe, hef⟩, hd⟩, hp⟩
  have hf : ((files [] tree).map Prod.fst).Nodup := (files_sublist _).nodup distinct
  have hpe : (manifest.entries.map listed).Perm ((files [] tree).map (measured sha256)) := by
    refine (perm_ext_iff_of_nodup ?_ ?_).mpr fun item => ⟨fun hi => hef hi, fun hi => hfe hi⟩
    · exact .of_map Prod.fst (by simpa [Function.comp_def, listed] using nodup_paths ho)
    · exact .of_map Prod.fst (by simpa [Function.comp_def, measured] using hf)
  have hn : ∀ node ∈ nodes [] tree, Admits sha256 manifest.entries node := by
    rintro ⟨path, kind⟩ hn
    cases kind with
    | file c =>
      obtain ⟨e, hm, he⟩ := mem_map.mp (hfe (mem_map_of_mem (mem_files.mpr hn)))
      simp only [listed, measured, Prod.mk.injEq] at he
      exact ⟨e, hm, he⟩
    | special links => exact hp _ hn links rfl
    | directory => exact hd _ hn rfl
  refine vdevVerifyPackageTree_ok ⟨ho, hs.valid, fun e hm => ?_⟩ ?_ (fun node hi => ?_) hn hpe
    hs.summed (hs.bounded.trans (by decide))
  · obtain ⟨⟨path, c⟩, hf, he⟩ := mem_map.mp (hef (mem_map_of_mem hm))
    have hc := count_slashes proper (mem_files.mp hf)
    rw [← (Prod.mk.inj he).1]
    exact hc.trans ((Nat.zero_add _).trans_le shallow)
  · exact (Nat.succ_le_succ short).trans (by decide)
  · have hl := (validateRelativePath_iff.mp (admits_valid hs.valid (hn node hi))).2.1
    unfold vdevPathJoin vdevPathMax
    rw [decide_eq_true_iff]
    split <;> omega

/-- What the agent reads from the manifest of `smallPackage`. -/
def smallParsed : VdevManifest :=
  ⟨[⟨lengthDigest [1, 2], 2, ascii "eboot.bin", false⟩,
    ⟨lengthDigest [3], 1, ascii "sce_sys/param.sfo", false⟩], 3⟩

def smallData : Bytes := HostManifest.manifestHeader ++
  (smallParsed.entries.map hostEntry).flatMap HostManifest.manifestRowText

theorem package_tree_exact_small : vdevParseManifest smallData = .ok smallParsed ∧
    ((∃ verified, vdevVerifyPackageTree lengthDigest (ascii "ux0:data/package") smallParsed
      smallPackage = .ok verified) ↔ Exact lengthDigest smallParsed smallPackage ∧
      ∀ node ∈ nodes [] smallPackage, ∀ links, node.2 ≠ .special links) :=
  have hp : vdevParseManifest smallData = .ok smallParsed := by decide +kernel
  ⟨hp, package_tree_exact hp (by decide) (by decide +kernel) (by decide +kernel)
    (by decide)⟩

/-- A link beside the files of the manifest. -/
def linkedPackage : Entries := .special (ascii "link") false smallPackage

/-- The files and directories are those listed, and the tree is refused for the link. -/
theorem package_link_refused : vdevParseManifest smallData = .ok smallParsed ∧
    named linkedPackage = true ∧ ((nodes [] linkedPackage).map Prod.fst).Nodup ∧
    nesting linkedPackage ≤ 32 ∧ Exact lengthDigest smallParsed linkedPackage ∧
    vdevVerifyPackageTree lengthDigest (ascii "ux0:data/package") smallParsed linkedPackage =
      .error .extra := by
  unfold Exact
  decide +kernel

end VitaDebugger.TreeVerification
