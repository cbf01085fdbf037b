import VitaDebugger.PackagePaths

/-! What a successful walk of the host over a package says: it met every regular file once,
nothing else but directories, and only valid paths that differ in more than case. -/

namespace VitaDebugger.HostWalk
open AgentProtocol Fallible HostManifest PackagePaths PackageTree List

section Listing

/-- The files of the directory itself. -/
def directFiles (relative : Path) : Entries → List (Path × Bytes)
  | .nil => []
  | .file name content rest => (under relative name, content) :: directFiles relative rest
  | .special _ _ rest => directFiles relative rest
  | .directory _ _ rest => directFiles relative rest

/-- The files of the directories below, in the order of the walk. -/
def filesBelow (relative : Path) : Entries → List (Path × Bytes)
  | .nil => []
  | .file _ _ rest => filesBelow relative rest
  | .special _ _ rest => filesBelow relative rest
  | .directory name inner rest =>
    directFiles (under relative name) inner ++ filesBelow (under relative name) inner ++
      filesBelow relative rest

theorem listing_perm (relative : Path) (ens : Entries) :
    (directFiles relative ens ++ filesBelow relative ens).Perm (files relative ens) := by
  induction ens generalizing relative with
  | nil => exact .refl _
  | file name content rest ih => exact (ih relative).cons _
  | special name links rest ih => exact ih relative
  | directory name inner rest hii hri =>
    rw [files_directory]
    refine (perm_append_comm_assoc _ _ _).trans ?_
    exact (hii (under relative name)).append (hri relative)

/-- No special entry in the directory itself. -/
def PlainHere : Entries → Prop
  | .nil => True
  | .file _ _ rest => PlainHere rest
  | .special _ _ _ => False
  | .directory _ _ rest => PlainHere rest

/-- No special entry in the directories below. -/
def PlainBelow : Entries → Prop
  | .nil => True
  | .file _ _ rest => PlainBelow rest
  | .special _ _ rest => PlainBelow rest
  | .directory _ inner rest => PlainHere inner ∧ PlainBelow inner ∧ PlainBelow rest

theorem plain_nodes {relative : Path} {ens : Entries} (hh : PlainHere ens)
    (hb : PlainBelow ens) : ∀ node ∈ nodes relative ens, ∀ ls, node.2 ≠ .special ls := by
  induction ens generalizing relative with
  | nil => exact fun node hm => absurd hm not_mem_nil
  | file name content rest ih =>
    refine forall_mem_cons.mpr ⟨?_, ih hh hb⟩
    intro ls hi
    cases hi
  | special name ls rest ih => exact hh.elim
  | directory name inner rest hii hri =>
    obtain ⟨hih, hib, hrb⟩ := hb
    refine forall_mem_cons.mpr ⟨?_, forall_mem_append.mpr ⟨?_, ?_⟩⟩
    · intro ls hi
      cases hi
    · exact hii hih hib
    · exact hri hh hrb

end Listing

/-- The state of the walk: valid paths, with keys that all differ. -/
structure Sound (scan : Scan) : Prop where
  valid : ∀ candidate ∈ scan.candidates, validateRelativePath candidate.1 = true
  keys : scan.collisionKeys = (scan.candidates.map fun candidate => casefold candidate.1).reverse
  distinct : scan.collisionKeys.Nodup

section Steps
variable {r name : Path} {es : Entries} {scan a : Scan}

theorem scanName_ok {c : Option Bytes} (hs : Sound scan)
    (run : scanName r name c scan = .ok a) :
    ∃ bs, c = some bs ∧ Sound a ∧
      a.candidates = scan.candidates ++ [(under r name, bs)] := by
  simp only [scanName, bind_ok, refuseIf_ok] at run
  obtain ⟨normalized, ha, _, _, _, hf, run⟩ := run
  obtain ⟨rfl, hv⟩ := normalizePackagePath_ok ha
  cases c with
  | none => cases run
  | some bs =>
    cases run
    refine ⟨bs, rfl, ⟨?_, ?_, ?_⟩, rfl⟩
    · refine forall_mem_append.mpr ⟨hs.valid, ?_⟩
      exact forall_mem_singleton.mpr hv
    · simp only [hs.keys, map_append, reverse_append]
      rfl
    · exact nodup_cons.mpr ⟨hf, hs.distinct⟩

theorem walkFiles_ok (hs : Sound scan) (hl : checkLinks r es = .ok ())
    (run : walkFiles r es scan = .ok a) :
    PlainHere es ∧ Sound a ∧
      a.candidates = scan.candidates ++ directFiles r es := by
  induction es generalizing scan with
  | nil =>
    cases run
    exact ⟨trivial, hs, (append_nil _).symm⟩
  | file name content rest ih =>
    rw [walkFiles, bind_ok] at run
    obtain ⟨next, hf, run⟩ := run
    obtain ⟨_, hsa, hns, ha⟩ := scanName_ok hs hf
    cases hsa
    obtain ⟨hh, has, hla⟩ := ih hns hl run
    refine ⟨hh, has, ?_⟩
    rw [hla, ha, append_assoc]
    rfl
  | special name linksDirectory rest ih =>
    simp only [checkLinks, bind_ok, refuseIf_ok] at hl
    obtain ⟨_, hu, _⟩ := hl
    rw [walkFiles, if_neg hu, bind_ok] at run
    obtain ⟨_, hf, _⟩ := run
    obtain ⟨_, hi, _⟩ := scanName_ok hs hf
    cases hi
  | directory name inner rest _ ih => exact ih hs hl run

theorem walkBelow_ok (hs : Sound scan) (run : walkBelow r es scan = .ok a) :
    PlainBelow es ∧ Sound a ∧
      a.candidates = scan.candidates ++ filesBelow r es := by
  induction es generalizing r scan a with
  | nil =>
    cases run
    exact ⟨trivial, hs, (append_nil _).symm⟩
  | file name content rest ih => exact ih hs run
  | special name links rest ih => exact ih hs run
  | directory name inner rest hii hri =>
    simp only [walkBelow, bind_ok] at run
    obtain ⟨_, links, middle, own, last, hb, run⟩ := run
    obtain ⟨hih, hms, hof⟩ := walkFiles_ok hs links own
    obtain ⟨hib, hls, hif⟩ := hii hms hb
    obtain ⟨hrb, has, hrf⟩ := hri hls run
    refine ⟨⟨hih, hib, hrb⟩, has, ?_⟩
    rw [hrf, hif, hof]
    simp only [filesBelow, append_assoc]

end Steps

theorem walk_ok {p : Entries} {scan : Scan} (run : walk p = .ok scan) :
    Sound scan ∧ scan.candidates.Perm (files [] p) ∧
      ∀ node ∈ nodes [] p, ∀ links, node.2 ≠ .special links := by
  have hst : Sound ⟨[], []⟩ := ⟨fun _ hm => absurd hm not_mem_nil, rfl, .nil⟩
  simp only [walk, bind_ok] at run
  obtain ⟨_, links, middle, own, hb⟩ := run
  obtain ⟨hh, hms, hof⟩ := walkFiles_ok hst links own
  obtain ⟨hi, hs, hif⟩ := walkBelow_ok hms hb
  refine ⟨hs, ?_, plain_nodes hh hi⟩
  rw [hif, hof]
  exact listing_perm [] p

section Build
variable {sha256 : Bytes → Bytes} {maxFiles maxTotalSize : ℕ}

/-- The manifest entry of one file. -/
def entryOf (sha256 : Bytes → Bytes) (file : Path × Bytes) : ManifestEntry :=
  ⟨LowerHex.encode (sha256 file.2), file.2.length, file.1⟩

def contentSize (candidates : List (Path × Bytes)) : ℕ :=
  (candidates.map fun candidate => candidate.2.length).sum

theorem collectEntries_ok {cs : List (Path × Bytes)} {t f : ℕ}
    {ens : List ManifestEntry}
    (run : collectEntries sha256 maxTotalSize t cs = .ok (ens, f)) :
    ens = cs.map (entryOf sha256) ∧ f = t + contentSize cs ∧
      (t ≤ maxTotalSize → f ≤ maxTotalSize) := by
  induction cs generalizing t ens f with
  | nil =>
    cases run
    exact ⟨rfl, rfl, id⟩
  | cons c rest ih =>
    obtain ⟨path, content⟩ := c
    simp only [collectEntries, bind_ok, refuseIf_ok] at run
    obtain ⟨_, hf, ⟨others, last⟩, ht, hr⟩ := run
    obtain ⟨rfl, hs, hb⟩ := ih ht
    cases hr
    refine ⟨rfl, ?_, fun _ => hb (by omega)⟩
    rw [hs, Nat.add_assoc]
    rfl

theorem path_le_trans : IsTrans (Path × Bytes) fun left right => left.1 ≤ right.1 :=
  ⟨fun _ _ _ hf hs => List.le_trans hf hs⟩

theorem path_le_total : Std.Total fun left right : Path × Bytes => left.1 ≤ right.1 :=
  ⟨fun left right => List.le_total left.1 right.1⟩

theorem path_lt_of_le {left right : Path} (ho : left ≤ right) (hu : left ≠ right) : left < right :=
  Classical.byContradiction fun hb =>
    hu (List.le_antisymm ho (List.not_lex_lt.mp hb))

/-- The files of a package that has a manifest, in the order of its rows. -/
structure Listed (sha256 : Bytes → Bytes) (maxFiles maxTotalSize : ℕ) (package : Entries)
    (manifest : Manifest) (candidates : List (Path × Bytes)) : Prop where
  all : candidates.Perm (files [] package)
  plain : ∀ node ∈ nodes [] package, ∀ links, node.2 ≠ .special links
  valid : ∀ candidate ∈ candidates, validateRelativePath candidate.1 = true
  distinct : candidates.Pairwise fun left right => casefold left.1 ≠ casefold right.1
  ordered : candidates.Pairwise fun left right => left.1 < right.1
  count : candidates.length ≤ maxFiles
  total : contentSize candidates ≤ maxTotalSize
  entries : manifest.entries = candidates.map (entryOf sha256)
  summed : manifest.totalSize = contentSize candidates
  data : manifest.data = manifestHeader ++ manifest.entries.flatMap manifestRowText

theorem buildManifest_ok {p : Entries} {m : Manifest}
    (hb : buildManifest sha256 maxFiles maxTotalSize p = .ok m) :
    ∃ cs, Listed sha256 maxFiles maxTotalSize p m cs := by
  simp only [buildManifest, bind_ok, refuseIf_ok] at hb
  obtain ⟨_, _, scan, hw, _, few, ⟨ens, final⟩, hc, hr⟩ := hb
  cases hr
  obtain ⟨hso, all, hp⟩ := walk_ok hw
  obtain ⟨hl, hsu, hbu⟩ := collectEntries_ok hc
  have hs : (sortedCandidates scan.candidates).Perm scan.candidates := perm_insertionSort _ _
  have hk : (scan.candidates.map fun c => casefold c.1).Nodup := by
    rw [← nodup_reverse, ← hso.keys]
    exact hso.distinct
  have hd : (sortedCandidates scan.candidates).Pairwise
      fun l rg => casefold l.1 ≠ casefold rg.1 := by
    have hmo := (hs.map fun c => casefold c.1).nodup_iff.mpr hk
    exact pairwise_map.mp hmo
  have hri : (sortedCandidates scan.candidates).Pairwise fun l rg => l.1 ≤ rg.1 :=
    have := path_le_trans
    have := path_le_total
    pairwise_insertionSort _ _
  refine ⟨sortedCandidates scan.candidates, ?_⟩
  constructor
  case all => exact hs.trans all
  case plain => exact hp
  case valid => exact fun c hm => hso.valid c (hs.mem_iff.mp hm)
  case distinct => exact hd
  case ordered =>
    refine (hri.and hd).imp fun {l rg} hbo => ?_
    exact path_lt_of_le hbo.1 fun hsa => hbo.2 (congrArg casefold hsa)
  case count => omega
  case total =>
    omega
  case entries => exact hl
  case summed => exact hsu.trans (Nat.zero_add _)
  case data => rfl

end Build
end VitaDebugger.HostWalk
