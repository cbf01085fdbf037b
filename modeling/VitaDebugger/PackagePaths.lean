import VitaDebugger.AgentProtocol
import VitaDebugger.Fallible
import VitaDebugger.HostManifest

/-! The paths a host manifest can hold are paths the agent takes, and so are the directories
above them. -/

namespace VitaDebugger.PackagePaths
open AgentProtocol Fallible HostManifest PackageTree List

theorem refuseIf_ok {condition : Prop} [Decidable condition] {e : HostError} {v : Unit} :
    refuseIf condition e = .ok v ↔ ¬condition := by
  unfold refuseIf
  split <;> simp [*]

theorem require_ok {condition : Prop} [Decidable condition] {e : VdevError} {v : Unit} :
    require condition e = .ok v ↔ condition := by
  unfold require
  split <;> simp [*]

/-- A byte both sides take inside a path segment. -/
def SegmentByte (c : UInt8) : Prop := ¬(c < 0x20 ∨ c > 0x7e ∨ c = 9 ∨ c = 92 ∨ c = 58)

def SegmentName (part : Bytes) : Prop := part ≠ [] ∧ part ≠ [46] ∧ part ≠ [46, 46]

section Segments
variable {s path : Bytes}

theorem validSegments_nil : validSegments s [] = true ↔ SegmentName s := by
  simp [validSegments, SegmentName, and_assoc]

theorem validSegments_slash :
    validSegments s (47 :: path) = true ↔ SegmentName s ∧ validSegments [] path = true := by
  simp [validSegments, SegmentName, and_assoc]

theorem validSegments_cons {c : UInt8} (ho : c ≠ 47) : validSegments s (c :: path) = true ↔
    SegmentByte c ∧ validSegments (s ++ [c]) path = true := by
  rw [validSegments, if_neg ho, SegmentByte]
  split <;> simp [*]

theorem validSegments_of_parts (hi : 47 ∉ s) (hb : ∀ c ∈ path, SegmentByte c)
    (hp : ∀ part ∈ (s ++ path).splitOn 47, SegmentName part) :
    validSegments s path = true := by
  induction path generalizing s with
  | nil =>
    rw [append_nil, splitOn_eq_singleton hi] at hp
    exact validSegments_nil.mpr (hp s mem_cons_self)
  | cons c path ih =>
    have hl : ∀ c ∈ path, SegmentByte c := fun c hm => hb c (mem_cons_of_mem _ hm)
    by_cases hs : c = 47
    · rw [hs, splitOn_append_cons_self_of_not_mem hi, forall_mem_cons] at hp
      rw [hs, validSegments_slash]
      exact ⟨hp.1, ih not_mem_nil hl hp.2⟩
    · refine (validSegments_cons hs).mpr ⟨hb c mem_cons_self, ih ?_ hl ?_⟩
      · simpa [hi] using Ne.symm hs
      · simpa using hp

theorem validSegments_append {f back : Bytes} :
    validSegments s (f ++ 47 :: back) = true ↔
      validSegments s f = true ∧ validSegments [] back = true := by
  induction f generalizing s with
  | nil => rw [nil_append, validSegments_slash, validSegments_nil]
  | cons c f ih =>
    rw [cons_append]
    by_cases hs : c = 47
    · subst hs
      rw [validSegments_slash, validSegments_slash, ih, and_assoc]
    · rw [validSegments_cons hs, validSegments_cons hs, ih, and_assoc]

theorem validSegments_bytes (hv : validSegments s path = true) :
    ∀ c ∈ path, c = 47 ∨ SegmentByte c := by
  induction path generalizing s with
  | nil => exact fun c hm => absurd hm not_mem_nil
  | cons d path ih =>
    by_cases hs : d = 47
    · rw [hs, validSegments_slash] at hv
      exact forall_mem_cons.mpr ⟨Or.inl hs, ih hv.2⟩
    · rw [validSegments_cons hs] at hv
      exact forall_mem_cons.mpr ⟨Or.inr hv.1, ih hv.2⟩

end Segments

theorem validateRelativePath_iff {path : Bytes} : validateRelativePath path = true ↔
    path ≠ [] ∧ path.length ≤ 240 ∧ path.head? ≠ some 47 ∧ path.getLast? ≠ some 47 ∧
      validSegments [] path = true := by
  unfold validateRelativePath
  split
  · rename_i hr
    simp only [length_eq_zero_iff] at hr
    simp only [Bool.false_eq_true, false_iff]
    rintro ⟨hn, hsh, hf, hl, _⟩
    rcases hr with he | hlo | hs | hs
    · exact hn he
    · exact Nat.not_le_of_gt hlo hsh
    · exact hf hs
    · exact hl hs
  · rename_i hp
    simp only [length_eq_zero_iff, not_or, Nat.not_lt] at hp
    simp [hp]

/-- A path that the host's rules accept is written as it stands and valid for the agent. -/
theorem normalizePackagePath_ok {raw : Bytes} {n : NormalizedPath}
    (ha : normalizePackagePath raw = .ok n) :
    n = ⟨raw, casefold raw⟩ ∧ validateRelativePath raw = true := by
  simp only [normalizePackagePath, bind_ok, refuseIf_ok, Bool.not_eq_true, any_eq_false,
    decide_eq_true_eq] at ha
  obtain ⟨_, hn, _, _, _, hl, _, hf, _, hs, _, hp, _, hsh, _, hpa, hre⟩ := ha
  cases hre
  have hw : [(47 : UInt8)].intercalate (raw.splitOn 47) = raw := intercalate_splitOn 47
  have hby : ∀ c ∈ raw, SegmentByte c := by
    intro c hm hr
    rcases hr with hco | hbe | tab | hb | hcl
    · exact hp c hm (Or.inl hco)
    · exact hp c hm (Or.inr hbe)
    · exact hp c hm (Or.inl (by rw [tab]; decide))
    · exact hs (Or.inl (hb ▸ hm))
    · exact hs (Or.inr (hcl ▸ hm))
  have hna : ∀ part ∈ raw.splitOn 47, SegmentName part := by
    intro part hm
    have hc := forM_ok.mp hpa part hm
    simp only [checkPart, bind_ok, refuseIf_ok, not_or] at hc
    obtain ⟨_, hnm, _⟩ := hc
    exact hnm
  refine ⟨by rw [hw], validateRelativePath_iff.mpr ⟨hn, by omega, ?_, hl, ?_⟩⟩
  · exact fun hsl => hf (Or.inl hsl)
  · exact validSegments_of_parts not_mem_nil hby hna

theorem validateRelativePath_above {d rest : Bytes}
    (hv : validateRelativePath (d ++ 47 :: rest) = true) :
    validateRelativePath d = true := by
  rw [validateRelativePath_iff] at hv ⊢
  obtain ⟨_, hsh, hf, _, hs⟩ := hv
  have hfr := (validSegments_append.mp hs).1
  have hn : d ≠ [] := by
    rintro rfl
    exact hf rfl
  refine ⟨hn, ?_, ?_, ?_, hfr⟩
  · rw [length_append] at hsh
    omega
  · obtain ⟨c, tail, rfl⟩ := exists_cons_of_ne_nil hn
    exact hf
  · intro hl
    obtain ⟨before, rfl⟩ := List.getLast?_eq_some_iff.mp hl
    exact (validSegments_nil.mp (validSegments_append.mp hfr).2).1 rfl

/-- The last name of a valid path is not one the agent skips. -/
theorem name_of_valid {r n : Bytes}
    (hv : validateRelativePath (under r n) = true) :
    n ≠ [] ∧ skipped n = false := by
  rw [validateRelativePath_iff] at hv
  obtain ⟨_, _, _, _, hs⟩ := hv
  have hl : validSegments [] n = true := by
    unfold under at hs
    split at hs
    · exact hs
    · exact (validSegments_append.mp hs).2
  constructor
  · rintro rfl
    cases hl
  · rw [skipped, Bool.or_eq_false_iff, beq_eq_false_iff_ne, beq_eq_false_iff_ne]
    constructor <;> rintro rfl <;> cases hl

theorem asciiCaseEqual_iff {l r : Bytes} : asciiCaseEqual l r = true ↔ casefold l = casefold r := by
  induction l generalizing r with
  | nil => cases r <;> simp [asciiCaseEqual, casefold]
  | cons a l ih =>
    cases r with
    | nil => simp [asciiCaseEqual, casefold]
    | cons b r =>
      rw [asciiCaseEqual]
      change _ ↔ lowerCase a :: casefold l = lowerCase b :: casefold r
      split <;> simp_all

end VitaDebugger.PackagePaths
