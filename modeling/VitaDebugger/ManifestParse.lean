import VitaDebugger.HostWalk

/-! The agent reads the rows of a host manifest back. -/

namespace VitaDebugger.ManifestParse
open AgentProtocol AsciiText Fallible HostManifest LowerHex PackagePaths PackageTree ScanLoop

section Lines
variable {line rest : Bytes}

theorem nextLine_append (hp : ∀ c ∈ line, c ≠ 10 ∧ c ≠ 13 ∧ c ≠ 0) :
    nextLine (line ++ 10 :: rest) = some (line, rest) := by
  induction line with
  | nil => rfl
  | cons c line ih =>
    obtain ⟨⟨hn, hc, hz⟩, ho⟩ := List.forall_mem_cons.mp hp
    rw [List.cons_append, nextLine, if_neg hn, if_neg (by simp [hc, hz]), ih ho]
    rfl

theorem nextLine_shorter {i : Bytes} (hf : nextLine i = some (line, rest)) :
    rest.length < i.length := by
  induction i generalizing line with
  | nil => cases hf
  | cons c i ih =>
    rw [nextLine] at hf
    split at hf
    · cases hf
      exact Nat.lt_succ_self _
    split at hf
    · cases hf
    · obtain ⟨⟨inner, behind⟩, hfi, hs⟩ := Option.map_eq_some_iff.mp hf
      cases hs
      exact Nat.lt_succ_of_lt (ih hfi)

theorem tabPositions_none {i : ℕ} (hp : 9 ∉ line) : tabPositions i line = [] := by
  induction line generalizing i with
  | nil => rfl
  | cons c line ih =>
    rw [List.mem_cons, not_or] at hp
    rw [tabPositions, if_neg (Ne.symm hp.1), ih hp.2]

theorem tabPositions_append {i : ℕ} (hp : 9 ∉ line) :
    tabPositions i (line ++ rest) = tabPositions (i + line.length) rest := by
  induction line generalizing i with
  | nil => rfl
  | cons c line ih =>
    rw [List.mem_cons, not_or] at hp
    rw [List.cons_append, tabPositions, if_neg (Ne.symm hp.1), ih hp.2, List.length_cons,
      Nat.add_assoc, Nat.add_comm 1]

theorem rowFields_of {hash size path : Bytes} (hl : hash.length = 64) (hhp : 9 ∉ hash)
    (hsp : 9 ∉ size) (hpp : 9 ∉ path) (hss : size ≠ []) (hps : path ≠ []) :
    rowFields (hash ++ [9] ++ size ++ [9] ++ path) = .ok (hash, size, path) := by
  have hs : hash ++ [9] ++ size ++ [9] ++ path = hash ++ (9 :: (size ++ 9 :: path)) := by simp
  have ht : tabPositions 0 (hash ++ (9 :: (size ++ 9 :: path))) = [64, 65 + size.length] := by
    rw [tabPositions_append hhp, tabPositions, if_pos rfl, tabPositions_append hsp,
      tabPositions, if_pos rfl, tabPositions_none hpp, hl]
  have hsl := List.length_pos_of_ne_nil hss
  have hpl := List.length_pos_of_ne_nil hps
  have hw : (hash ++ (9 :: (size ++ 9 :: path))).length = 66 + size.length + path.length := by
    simp only [List.length_append, List.length_cons, hl]
    omega
  have hf : (hash ++ (9 :: (size ++ 9 :: path))).take 64 = hash := List.take_left' hl
  have hb : (hash ++ (9 :: (size ++ 9 :: path))).drop 65 = size ++ 9 :: path := by
    rw [List.drop_append, hl, List.drop_eq_nil_of_le (by omega)]
    rfl
  have hla : (hash ++ (9 :: (size ++ 9 :: path))).drop (65 + size.length + 1) = path := by
    rw [Nat.add_assoc, ← List.drop_drop, hb]
    simp
  rw [hs, rowFields, ht]
  dsimp only
  rw [if_neg (by omega), hf, hb, hla, show 65 + size.length - 64 - 1 = size.length by omega,
    List.take_left]

end Lines

section Numbers

theorem decimalValueFrom_ge (s : ℕ) (t : Bytes) : s ≤ decimalValueFrom s t := by
  induction t generalizing s with
  | nil => exact Nat.le_refl s
  | cons c t ih =>
    have hl := ih (s * 10 + (c.toNat - 48))
    change s ≤ decimalValueFrom (s * 10 + (c.toNat - 48)) t
    omega

theorem parseDigits_ok {s : ℕ} {t : Bytes} (hd : ∀ c ∈ t, IsDigit c)
    (hs : decimalValueFrom s t ≤ uint64Max) :
    parseDigits s t = .ok (decimalValueFrom s t) := by
  induction t generalizing s with
  | nil => rfl
  | cons c t ih =>
    obtain ⟨hf, ho⟩ := List.forall_mem_cons.mp hd
    have hv : decimalValueFrom s (c :: t) =
        decimalValueFrom (s * 10 + (c.toNat - 48)) t := rfl
    have hg := decimalValueFrom_ge (s * 10 + (c.toNat - 48)) t
    rw [hv] at hs ⊢
    have hfi : ¬s > (uint64Max - (c.toNat - 48)) / 10 := by
      omega
    rw [parseDigits, if_neg (not_not.mpr hf), if_neg hfi, ih ho hs]

theorem parseDecimal_decimal {n : ℕ} (hsm : n ≤ uint64Max) : parseDecimal (decimal n) = .ok n := by
  obtain ⟨hn, hd, hl⟩ := canonical_decimal n
  have hv : decimalValueFrom 0 (decimal n) = n := decimalValue_decimal n
  have hs : ¬((decimal n).length = 0 ∨ (decimal n).length > 1 ∧ (decimal n).head? = some 48) := by
    rintro (he | ⟨hlo, hz⟩)
    · exact hn (List.length_eq_zero_iff.mp he)
    · rcases hl with hsh | ho
      · omega
      · exact ho hz
  rw [parseDecimal, if_neg hs, parseDigits_ok hd (by omega), hv]

theorem hashOr_encode {d : Bytes} (hl : d.length = 32) : hashOr (encode d) = .ok d := by
  have hex : vdevIsLowerHex (encode d) 64 = true :=
    Bool.and_eq_true_iff.mpr ⟨List.all_eq_true.mpr fun c hi =>
      decide_eq_true (encode_isHex d c hi), decide_eq_true (by rw [encode_length, hl])⟩
  rw [hashOr, if_pos hex, digestOr, decode_encode]

end Numbers

section Rows
variable {entry : VdevManifestEntry} {entries : List VdevManifestEntry}

/-- What the agent keeps of one file. -/
def parsedEntry (sha256 : Bytes → Bytes) (file : Path × Bytes) : VdevManifestEntry :=
  ⟨sha256 file.2, file.2.length, file.1, false⟩

def rowLine (entry : VdevManifestEntry) : Bytes :=
  encode entry.sha256 ++ [9] ++ decimal entry.size ++ [9] ++ entry.path

def rowText (entry : VdevManifestEntry) : Bytes :=
  manifestRowText ⟨encode entry.sha256, entry.size, entry.path⟩

theorem rowText_append (entry : VdevManifestEntry) (rest : Bytes) :
    rowText entry ++ rest = rowLine entry ++ 10 :: rest := by
  simp [rowText, manifestRowText, rowLine]

def sizes (entries : List VdevManifestEntry) : ℕ := (entries.map (·.size)).sum

/-- The files whose rows the agent takes. -/
structure Acceptable (entries : List VdevManifestEntry) : Prop where
  digest : ∀ entry ∈ entries, entry.sha256.length = 32
  fresh : ∀ entry ∈ entries, entry.seen = false
  valid : ∀ entry ∈ entries, validateRelativePath entry.path = true
  small : ∀ entry ∈ entries, entry.size ≤ 2 ^ 28
  distinct : entries.Pairwise fun left right => casefold left.path ≠ casefold right.path
  ordered : entries.Pairwise fun left right => left.path < right.path
  count : entries.length ≤ 8192
  total : sizes entries ≤ 2 ^ 30

theorem path_bytes {path : Bytes} (hv : validateRelativePath path = true) :
    ∀ c ∈ path, 0x20 ≤ c ∧ c ≠ 9 := by
  intro c hm
  rcases validSegments_bytes (validateRelativePath_iff.mp hv).2.2.2.2 c hm with rfl | hb
  · decide
  · simp only [SegmentByte, not_or, UInt8.not_lt] at hb
    exact ⟨hb.1, hb.2.2.1⟩

theorem hex_bytes (d : Bytes) : ∀ c ∈ encode d, 0x20 ≤ c ∧ c ≠ 9 := fun c hm =>
  (by decide +kernel : ∀ c, IsHex c → 0x20 ≤ c ∧ c ≠ 9) c (encode_isHex d c hm)

theorem decimal_bytes (n : ℕ) : ∀ c ∈ decimal n, 0x20 ≤ c ∧ c ≠ 9 := fun c hm =>
  (by decide +kernel : ∀ c, IsDigit c → 0x20 ≤ c ∧ c ≠ 9) c (decimal_digits n c hm)

theorem rowLine_bytes (hv : validateRelativePath entry.path = true) :
    ∀ c ∈ rowLine entry, c = 9 ∨ 0x20 ≤ c := by
  intro c hm
  simp only [rowLine, List.mem_append, List.mem_singleton] at hm
  rcases hm with (((hh | tab) | hsi) | tab) | hp
  · exact Or.inr (hex_bytes _ c hh).1
  · exact Or.inl tab
  · exact Or.inr (decimal_bytes _ c hsi).1
  · exact Or.inl tab
  · exact Or.inr (path_bytes hv c hp).1

theorem rowLine_plain (hv : validateRelativePath entry.path = true) :
    ∀ c ∈ rowLine entry, c ≠ 10 ∧ c ≠ 13 ∧ c ≠ 0 := fun c hm =>
  (by decide +kernel : ∀ c : UInt8, c = 9 ∨ 0x20 ≤ c → c ≠ 10 ∧ c ≠ 13 ∧ c ≠ 0) c
    (rowLine_bytes hv c hm)

theorem rowFields_rowLine (hd : entry.sha256.length = 32)
    (hv : validateRelativePath entry.path = true) : rowFields (rowLine entry) =
      .ok (encode entry.sha256, decimal entry.size, entry.path) := by
  apply rowFields_of
  · rw [encode_length, hd]
  · exact fun tab => (hex_bytes _ 9 tab).2 rfl
  · exact fun tab => (decimal_bytes _ 9 tab).2 rfl
  · exact fun tab => (path_bytes hv 9 tab).2 rfl
  · exact decimal_ne_nil _
  · exact (validateRelativePath_iff.mp hv).1

theorem manifestRow_ok {b after : List VdevManifestEntry} (ha : Acceptable (b ++ entry :: after)) :
    manifestRow ⟨b, sizes b⟩ (rowLine entry) = .ok ⟨b ++ [entry], sizes (b ++ [entry])⟩ := by
  have hm : entry ∈ b ++ entry :: after := by simp
  have hv := ha.valid entry hm
  have hs := ha.small entry hm
  have hr : b.length < 8192 := by
    have hc := ha.count
    simp only [List.length_append, List.length_cons] at hc
    omega
  have sum : sizes (b ++ [entry]) = sizes b + entry.size := by simp [sizes]
  have ht : sizes b + entry.size ≤ 2 ^ 30 := by
    have ht := ha.total
    simp only [sizes, List.map_append, List.map_cons, List.sum_append, List.sum_cons] at ht ⊢
    omega
  have hb : ∀ o ∈ b.getLast?, strcmp o.path entry.path = .lt := fun o hl =>
    strcmp_lt.mpr ((List.pairwise_append.mp ha.ordered).2.2 o (List.mem_of_getLast? hl) entry
      List.mem_cons_self)
  have hu : ∀ o ∈ b, asciiCaseEqual o.path entry.path = false := by
    intro o hi
    rw [← Bool.not_eq_true, asciiCaseEqual_iff]
    exact (List.pairwise_append.mp ha.distinct).2.2 o hi entry List.mem_cons_self
  simp only [manifestRow, bind_ok, require_ok]
  refine ⟨_, rowFields_rowLine (ha.digest entry hm) hv, (), hr, _,
    hashOr_encode (ha.digest entry hm), _, parseDecimal_decimal ?_, (), hs, (), hv, (), hb, (), hu,
    (), ?_, (), ht, ?_⟩
  · unfold uint64Max
    omega
  · unfold uint64Max
    omega
  · rw [sum, ← ha.fresh entry hm]
    rfl

theorem manifestRound_shrinks : Shrinks manifestRound := by
  intro manifest input after rest ho
  unfold manifestRound at ho
  split at ho
  · cases ho
  rw [bind_ok] at ho
  obtain ⟨⟨line, behind⟩, hf, ho⟩ := ho
  rw [bind_ok] at ho
  obtain ⟨_, _, hr⟩ := ho
  cases hr
  unfold next at hf
  split at hf
  · cases hf
  · rename_i hfo
    cases hf
    exact nextLine_shorter hfo

theorem scan_rows {b after : List VdevManifestEntry} (ha : Acceptable (b ++ after)) :
    scan manifestRound ⟨b, sizes b⟩ (after.flatMap rowText) =
      .ok (⟨b ++ after, sizes (b ++ after)⟩, []) := by
  induction after generalizing b with
  | nil =>
    rw [List.append_nil]
    exact scan_stop rfl
  | cons entry after ih =>
    have hm : b ++ entry :: after = (b ++ [entry]) ++ after := by simp
    have hv := ha.valid entry (by simp)
    have hr : manifestRound ⟨b, sizes b⟩ ((entry :: after).flatMap rowText) =
        .ok (some (⟨b ++ [entry], sizes (b ++ [entry])⟩, after.flatMap rowText)) := by
      rw [List.flatMap_cons, rowText_append, manifestRound, if_neg (by simp), next,
        nextLine_append (rowLine_plain hv)]
      exact bind_ok.mpr ⟨_, rfl, bind_ok.mpr ⟨_, manifestRow_ok ha, rfl⟩⟩
    rw [scan_next manifestRound_shrinks hr, hm]
    exact ih (hm ▸ ha)

theorem rows_length (ha : Acceptable entries) :
    (entries.flatMap rowText).length ≤ 317 * entries.length := by
  have hl : ∀ entry ∈ entries, (rowText entry).length ≤ 317 := by
    intro entry hi
    have hs := (validateRelativePath_iff.mp (ha.valid entry hi)).2.1
    have hf := ha.small entry hi
    have hn : (decimal entry.size).length ≤ 9 + 1 := decimal_length_le (by omega)
    simp only [rowText, manifestRowText, List.length_append, List.length_cons, List.length_nil,
      encode_length, ha.digest entry hi]
    omega
  clear ha
  induction entries with
  | nil => exact Nat.le_refl 0
  | cons entry rest ih =>
    obtain ⟨hf, ho⟩ := List.forall_mem_cons.mp hl
    have hr := ih ho
    rw [List.flatMap_cons, List.length_append, List.length_cons]
    omega

theorem vdevParseManifest_ok (ha : Acceptable entries) (hsf : entries ≠ []) :
    vdevParseManifest (manifestHeader ++ entries.flatMap rowText) =
      .ok ⟨entries, sizes entries⟩ := by
  have hh : manifestHeader.length = 25 := by decide
  have hr := rows_length ha
  have hc := ha.count
  have hf : next (manifestHeader ++ entries.flatMap rowText) =
      .ok (ascii "VITADEVDEPLOY-MANIFEST-1", entries.flatMap rowText) := by
    rw [manifestHeader, List.append_assoc, next, List.singleton_append,
      nextLine_append (by decide +kernel)]
  simp only [vdevParseManifest, bind_ok, require_ok]
  refine ⟨(), ⟨?_, ?_⟩, _, hf, (), rfl, _, @scan_rows [] entries ha, (), hsf, rfl⟩
  · rw [List.length_append, hh]
    omega
  · rw [List.length_append, hh]
    unfold vdevManifestMax
    omega

theorem vdevParseManifest_keeps {P : VdevManifest → Prop} {m : VdevManifest} {data : Bytes}
    (hs : P ⟨[], 0⟩) (hr : ∀ m line a, P m → manifestRow m line = .ok a → P a)
    (h : vdevParseManifest data = .ok m) : P m := by
  simp only [vdevParseManifest, bind_ok, require_ok] at h
  obtain ⟨_, -, ⟨_, rows⟩, -, _, -, ⟨parsed, _⟩, hp, _, -, h⟩ := h
  cases h
  refine scan_keeps hs (fun m input a rest hm hi => ?_) hp
  unfold manifestRound at hi
  split at hi
  · cases hi
  simp only [bind_ok] at hi
  obtain ⟨⟨line, _⟩, -, next, hn, hi⟩ := hi
  cases hi
  exact hr _ _ _ hm hn

end Rows

end VitaDebugger.ManifestParse
