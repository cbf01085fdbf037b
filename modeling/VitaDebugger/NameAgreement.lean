import VitaDebugger.NameWire
import VitaDebugger.TraceDecoder

/-! The two validators of the name dictionary, in the profiler library and in the receiver,
accept the same blocks, up to the receiver's rules on what may be displayed. -/

namespace VitaDebugger.NameAgreement
open LittleEndian NameDictionary NameWire TraceDecoder List

theorem guard_ok {ε α : Type} {c : Prop} [Decidable c] {e : ε} {x : Except ε α} {a : α} :
    (if c then .error e else x) = .ok a ↔ ¬c ∧ x = .ok a := by
  by_cases h : c <;> simp [h]

theorem refuse_ok {α : Type} {c : Prop} [Decidable c] {m : String} {x : Except TraceError α}
    {a : α} : (if c then refuse m else x) = .ok a ↔ ¬c ∧ x = .ok a := guard_ok

theorem readU16Le_eq_iff (input : Bytes) (offset : ℕ) (v : UInt16) :
    readU16Le input offset = v ↔ number input offset 2 = v.toNat := by
  rw [← UInt16.toNat_inj, toNat_readU16Le]

theorem readU32Le_eq_iff (input : Bytes) (offset : ℕ) (v : UInt32) :
    readU32Le input offset = v ↔ number input offset 4 = v.toNat := by
  rw [← UInt32.toNat_inj, toNat_readU32Le]

theorem readU64Le_eq_iff (input : Bytes) (offset : ℕ) (v : UInt64) :
    readU64Le input offset = v ↔ number input offset 8 = v.toNat := by
  rw [← UInt64.toNat_inj, toNat_readU64Le]

/-- Whether `_decode_safe_text` takes a text. -/
def displaySafe (unicode : UnicodeData) (rawText : Bytes) : Bool :=
  match decodeUtf8 rawText with
  | none => false
  | some name => name.toList.all unicode.safe

variable {u : UnicodeData}

theorem decodeSafeText_ok {rawText : Bytes} {l : String} :
    (∃ name, decodeSafeText u rawText l = .ok name) ↔ displaySafe u rawText := by
  unfold decodeSafeText displaySafe
  cases decodeUtf8 rawText with
  | none => simp [refuse]
  | some name =>
    by_cases hs : name.toList.all u.safe
    · simp [hs]
    · simp [hs, refuse]

/-- The place of an entry in the block and its shape, as both validators check them. -/
structure EntryShape (input : Bytes) (totalSize offset previous : ℕ) (first : Bool) :
    Prop where
  header : offset + 8 ≤ totalSize
  named : number input offset 4 ≠ 0
  nonempty : 1 ≤ number input (offset + 4) 2
  short : number input (offset + 4) 2 ≤ 255
  ordered : first = false → previous < number input offset 4
  fits : offset + 8 + (number input (offset + 4) 2 + 3) / 4 * 4 ≤ totalSize
  text : 0 ∉ (input.drop (offset + 8)).take (number input (offset + 4) 2)
  padding : ((input.drop (offset + 8 + number input (offset + 4) 2)).take
    ((number input (offset + 4) 2 + 3) / 4 * 4 - number input (offset + 4) 2)).any (· ≠ 0) = false

/-- A built-in name stands under its own identifier, any other under its hash. -/
def Named (nameId : UInt32) (flags : UInt16) (name : Bytes) : Prop :=
  match vpBuiltinIndex nameId with
  | some builtin =>
    flags = NameDictionary.nameFlagBuiltin ∧
      name = (NameDictionary.builtinNames.getD builtin ⟨0, [], 0⟩).name
  | none => flags = nameFlagNone ∧ vpNameIdBytes name = nameId

/-- The bit of a built-in name in the mask of those seen. -/
def builtinBit (nameId : UInt32) : UInt32 :=
  match vpBuiltinIndex nameId with
  | some builtin => 1 <<< UInt32.ofNat builtin
  | none => 0

variable {nameId : UInt32} {name : Bytes}

theorem vpValidateWireName_ok {fs : UInt16} {mask m' : UInt32} :
    vpValidateWireName nameId fs name mask = .ok m' ↔
      0 ∉ name ∧ Named nameId fs name ∧ m' = mask ||| builtinBit nameId := by
  have hs : (name.any (· = 0)) = true ↔ 0 ∈ name := by
    simp
  unfold vpValidateWireName Named builtinBit
  rw [guard_ok, hs]
  cases vpBuiltinIndex nameId with
  | none =>
    rw [guard_ok, not_or, not_not, not_not, UInt32.or_zero, Except.ok.injEq, eq_comm (a := mask)]
  | some builtin =>
    rw [guard_ok, not_or, not_or, not_not, not_not, not_not, Except.ok.injEq, eq_comm (b := m')]
    constructor
    · rintro ⟨hc, ⟨hf, _, ht⟩, hd⟩
      exact ⟨hc, ⟨hf, ht⟩, hd⟩
    · rintro ⟨hc, ⟨hf, ht⟩, hd⟩
      exact ⟨hc, ⟨hf, congrArg List.length ht, ht⟩, hd⟩

theorem andNot_three (n : ℕ) : andNot n 3 = n / 4 * 4 := by
  have low : n &&& 3 = n % 4 := Nat.and_two_pow_sub_one_eq_mod n 2
  rw [andNot, low]
  omega

/-- The text of the entry at an offset. -/
def entryText (input : Bytes) (offset : ℕ) : Bytes :=
  (input.drop (offset + 8)).take (number input (offset + 4) 2)

def nextOffset (input : Bytes) (offset : ℕ) : ℕ :=
  offset + 8 + (number input (offset + 4) 2 + 3) / 4 * 4

variable {s : EntryScan} {first : Bool} {input : Bytes} {totalSize : ℕ}

theorem validateEntry_ok {input : Bytes} {totalSize : ℕ} {s' : EntryScan} :
    validateEntry input totalSize first s = .ok s' ↔
      EntryShape input totalSize s.offset s.previousId.toNat first ∧
      Named (readU32Le input s.offset) (readU16Le input (s.offset + 6)) (entryText input s.offset) ∧
      s' = ⟨nextOffset input s.offset, readU32Le input s.offset,
        s.builtinMask ||| builtinBit (readU32Le input s.offset)⟩ := by
  unfold validateEntry
  rw [guard_ok]
  simp only [toNat_readU16Le, toNat_vpPaddedNameSize]
  rw [guard_ok]
  have hz : readU32Le input s.offset = 0 ↔ number input s.offset 4 = 0 := readU32Le_eq_iff ..
  have he : readU16Le input (s.offset + 4) = 0 ↔ number input (s.offset + 4) 2 = 0 :=
    readU16Le_eq_iff ..
  rw [hz, he, UInt32.le_iff_toNat_le, toNat_readU32Le]
  constructor
  · rintro ⟨hro, hs, hr⟩
    change ¬(_ ∨ _ ∨ 255 < _ ∨ _ ∨ _ - _ - 8 < _) at hs
    rw [not_or, not_or, not_or, not_or] at hs
    obtain ⟨hn, hno, hsh, ho, hf⟩ := hs
    split at hr
    · cases hr
    case h_2 mask hv =>
    obtain ⟨hcl, hc, rfl⟩ := vpValidateWireName_ok.mp hv
    obtain ⟨hp, hd⟩ := guard_ok.mp hr
    refine ⟨⟨by omega, hn, by omega, by omega, fun hl => ?_, by omega, hcl,
      Bool.eq_false_iff.mpr hp⟩, hc, (Except.ok.inj hd).symm⟩
    exact Nat.lt_of_not_le fun hb => ho ⟨hl, hb⟩
  rintro ⟨hs, hn, rfl⟩
  have hf := hs.fits
  have hno := hs.nonempty
  have hsh := hs.short
  refine ⟨?_, ?_, ?_⟩
  · change ¬(_ ∨ _ < 8)
    omega
  · change ¬(_ ∨ _ ∨ 255 < _ ∨ _ ∨ _ - _ - 8 < _)
    rw [not_or, not_or, not_or, not_or]
    refine ⟨hs.named, by omega, by omega, fun hb => ?_, by omega⟩
    exact Nat.not_le_of_lt (hs.ordered hb.1) hb.2
  have hv : vpValidateWireName (readU32Le input s.offset) (readU16Le input (s.offset + 6))
      (entryText input s.offset) s.builtinMask =
        .ok (s.builtinMask ||| builtinBit (readU32Le input s.offset)) :=
    vpValidateWireName_ok.mpr ⟨hs.text, hn, rfl⟩
  unfold entryText at hv
  rw [hv]
  exact if_neg (Bool.eq_false_iff.mp hs.padding)

theorem range_builtinNames : ∀ e ∈ TraceDecoder.builtinNames,
    4293918721 ≤ e.1 ∧ e.1 ≤ 4293918728 := by
  decide

theorem texts_builtinNames : ∀ k < 8,
    (TraceDecoder.builtinNames.lookup (4293918721 + k)).map (fun text => text.toUTF8.data.toList) =
      some (NameDictionary.builtinNames.getD k ⟨0, [], 0⟩).name := by
  decide +kernel

theorem builtin_place {nameId : UInt32}
    (hi : ¬(nameId < metricFreeUserBytes ∨ 0xfff00008 < nameId)) :
    (nameId - metricFreeUserBytes).toNat = nameId.toNat - 4293918721 ∧ 4293918721 ≤ nameId.toNat ∧
      nameId.toNat ≤ 4293918728 := by
  rw [not_or, UInt32.not_lt, UInt32.not_lt] at hi
  exact ⟨UInt32.toNat_sub_of_le _ _ hi.1, UInt32.le_iff_toNat_le.mp hi.1,
    UInt32.le_iff_toNat_le.mp hi.2⟩

theorem lookup_builtinNames (nameId : UInt32) :
    (TraceDecoder.builtinNames.lookup nameId.toNat).map (fun text => text.toUTF8.data.toList) =
      (vpBuiltinIndex nameId).map fun b =>
        (NameDictionary.builtinNames.getD b ⟨0, [], 0⟩).name := by
  unfold vpBuiltinIndex
  split
  case isTrue ho =>
    rw [UInt32.lt_iff_toNat_lt, UInt32.lt_iff_toNat_lt] at ho
    change _ < 4293918721 ∨ 4293918728 < _ at ho
    rw [Option.map_none, Option.map_eq_none_iff, lookup_eq_none_iff]
    intro e hk
    have hr := range_builtinNames e hk
    rw [bne_iff_ne]
    omega
  case isFalse hi =>
    obtain ⟨hp, low, hh⟩ := builtin_place hi
    have hk := texts_builtinNames (nameId - metricFreeUserBytes).toNat (by omega)
    rwa [hp, Nat.add_sub_cancel' low, ← hp] at hk

theorem foldl_fnv1a (name : Bytes) (ha : UInt32) :
    name.foldl (fun v b => ((v ^^^ b.toNat) * 16777619) &&& 0xffffffff) ha.toNat =
      (name.foldl (fun ha b => (ha ^^^ b.toUInt32) * 16777619) ha).toNat := by
  induction name generalizing ha with
  | nil => rfl
  | cons b name ih =>
    have hs : ((ha.toNat ^^^ b.toNat) * 16777619) &&& 0xffffffff =
        ((ha ^^^ b.toUInt32) * 16777619).toNat := by
      rw [UInt32.toNat_mul, UInt32.toNat_xor, UInt8.toNat_toUInt32]
      exact Nat.and_two_pow_sub_one_eq_mod _ 32
    rw [foldl_cons, hs, ih, foldl_cons]

theorem fnv1aNameId_eq (hno : name ≠ []) : fnv1aNameId name = (vpNameIdBytes name).toNat := by
  have hs := foldl_fnv1a name 2166136261
  change List.foldl _ 2166136261 _ = _ at hs
  unfold fnv1aNameId vpNameIdBytes
  rw [if_neg hno, hs]
  generalize name.foldl (fun ha byte => (ha ^^^ byte.toUInt32) * 16777619) 2166136261 = ha
  have hz : ha.toNat = 0 ↔ ha = 0 := UInt32.toNat_inj (b := 0)
  by_cases hn : ha = 0
  · rw [if_pos (hz.mpr hn), if_pos hn]
    rfl
  · rw [if_neg (mt hz.mp hn), if_neg hn]

theorem checkName_ok (nameId : UInt32) (fs : UInt16) (hn : name ≠ [])
    (seen s' : Finset ℕ) : checkName nameId.toNat fs.toNat name seen = .ok s' ↔
      Named nameId fs name ∧
        s' = if (vpBuiltinIndex nameId).isSome then insert nameId.toNat seen else seen := by
  have ht := lookup_builtinNames nameId
  unfold checkName Named
  cases hk : vpBuiltinIndex nameId with
  | none =>
    rw [hk, Option.map_none, Option.map_eq_none_iff] at ht
    rw [ht]
    have hz : fs.toNat = 0 ↔ fs = nameFlagNone := UInt16.toNat_inj (b := 0)
    rw [refuse_ok, fnv1aNameId_eq hn, not_or, not_not, not_not, UInt32.toNat_inj, hz,
      Except.ok.injEq, eq_comm (a := seen)]
    rfl
  | some builtin =>
    rw [hk, Option.map_some, Option.map_eq_some_iff] at ht
    obtain ⟨text, hf, hs⟩ := ht
    rw [hf]
    have one : fs.toNat = 1 ↔ fs = NameDictionary.nameFlagBuiltin := UInt16.toNat_inj (b := 1)
    rw [refuse_ok, hs, not_or, not_not, not_not, one, Except.ok.injEq, eq_comm (b := s')]
    rfl

variable {offset previous : ℕ}

theorem EntryShape.text_ne_nil
    (hs : EntryShape input totalSize offset previous first) (hi : totalSize ≤ input.length) :
    entryText input offset ≠ [] := by
  have hn := hs.nonempty
  have hf := hs.fits
  intro he
  have hl := congrArg List.length he
  rw [entryText, length_take, length_drop, length_nil] at hl
  omega

theorem EntryShape.checkName_ok
    (hs : EntryShape input totalSize offset previous first) (hi : totalSize ≤ input.length)
    (seen s' : Finset ℕ) :
    checkName (number input offset 4) (number input (offset + 6) 2) (entryText input offset) seen =
        .ok s' ↔
      Named (readU32Le input offset) (readU16Le input (offset + 6)) (entryText input offset) ∧
        s' = if (vpBuiltinIndex (readU32Le input offset)).isSome then
          insert (number input offset 4) seen else seen := by
  have hc := NameAgreement.checkName_ok (readU32Le input offset) (readU16Le input (offset + 6))
    (hs.text_ne_nil hi) seen s'
  rwa [toNat_readU32Le, toNat_readU16Le] at hc

variable {t : EntryLoop} {i : ℕ}

theorem decodeEntry_ok {t' : EntryLoop}
    (hi : totalSize ≤ input.length) : decodeEntry u input totalSize i t = .ok t' ↔
      EntryShape input totalSize t.offset t.previousId (decide (i = 0)) ∧
      Named (readU32Le input t.offset) (readU16Le input (t.offset + 6)) (entryText input t.offset) ∧
      ∃ name, decodeSafeName u (entryText input t.offset) i = .ok name ∧
        t' = ⟨nextOffset input t.offset, number input t.offset 4,
          if (vpBuiltinIndex (readU32Le input t.offset)).isSome then
            insert (number input t.offset 4) t.seenBuiltins else t.seenBuiltins,
          t.result ++ [⟨number input t.offset 4, name, number input (t.offset + 6) 2⟩]⟩ := by
  unfold decodeEntry
  simp only [andNot_three, refuse_ok]
  constructor
  · rintro ⟨hro, hs, ho, hf, hcl, hp, hr⟩
    change ¬_ < _ + 8 + _ at hf
    rw [not_or, not_not] at hs
    obtain ⟨hn, hno, hso⟩ := hs
    have hsh : EntryShape input totalSize t.offset t.previousId (decide (i = 0)) := by
      refine ⟨by omega, hn, hno, hso, fun hl => ?_, by omega, hcl, Bool.eq_false_iff.mpr hp⟩
      exact Nat.lt_of_not_le fun hb => ho ⟨of_decide_eq_false hl, hb⟩
    split at hr
    · cases hr
    case h_2 seen hc =>
    split at hr
    · cases hr
    case h_2 name hsa =>
    obtain ⟨hch, rfl⟩ := (hsh.checkName_ok hi _ _).mp hc
    exact ⟨hsh, hch, name, hsa, (Except.ok.inj hr).symm⟩
  rintro ⟨hs, hn, name, hsa, rfl⟩
  have hf := hs.fits
  have hc := (hs.checkName_ok hi t.seenBuiltins _).mpr ⟨hn, rfl⟩
  refine ⟨?_, ?_, fun hb => ?_, ?_, hs.text, Bool.eq_false_iff.mp hs.padding, ?_⟩
  · change ¬_ < 8
    omega
  · rintro (hz | hw)
    · exact hs.named hz
    · exact hw ⟨hs.nonempty, hs.short⟩
  · exact Nat.not_le_of_lt (hs.ordered (decide_eq_false hb.1)) hb.2
  · change ¬_ < _ + 8 + _
    omega
  unfold entryText at hc hsa
  rw [hc]
  rw [hsa]
  rfl

/-- The two loops over the entries stand at the same place. -/
structure Alike (s : EntryScan) (t : EntryLoop) : Prop where
  offset : t.offset = s.offset
  previous : t.previousId = s.previousId.toNat
  small : s.builtinMask.toNat < 2 ^ 8
  seen : ∀ k < 8, s.builtinMask.toNat.testBit k = decide (4293918721 + k ∈ t.seenBuiltins)
  known : ∀ nameId ∈ t.seenBuiltins, 4293918721 ≤ nameId ∧ nameId ≤ 4293918728

theorem vpBuiltinIndex_some {b : ℕ} (hf : vpBuiltinIndex nameId = some b) :
    nameId.toNat = 4293918721 + b ∧ b < 8 := by
  unfold vpBuiltinIndex at hf
  split at hf
  · cases hf
  case isFalse hi =>
    have hr := builtin_place hi
    have hs := Option.some.inj hf
    omega

theorem toNat_builtinBit {builtin : ℕ} (hf : vpBuiltinIndex nameId = some builtin) :
    (builtinBit nameId).toNat = 2 ^ builtin := by
  have hs := (vpBuiltinIndex_some hf).2
  unfold builtinBit
  rw [hf]
  have hb : ∀ k < 8, ((1 : UInt32) <<< UInt32.ofNat k).toNat = 2 ^ k := by decide
  exact hb builtin hs

theorem Alike.note (ha : Alike s t) (nameId : UInt32) (offset : ℕ)
    (r : List TraceDecoder.NameEntry) :
    Alike ⟨offset, nameId, s.builtinMask ||| builtinBit nameId⟩
      ⟨offset, nameId.toNat, if (vpBuiltinIndex nameId).isSome then
        insert nameId.toNat t.seenBuiltins else t.seenBuiltins, r⟩ := by
  cases hf : vpBuiltinIndex nameId with
  | none =>
    have hc : builtinBit nameId = 0 := by
      unfold builtinBit
      rw [hf]
    rw [hc, UInt32.or_zero]
    exact ⟨rfl, rfl, ha.small, ha.seen, ha.known⟩
  | some b =>
    obtain ⟨hp, few⟩ := vpBuiltinIndex_some hf
    have bit := toNat_builtinBit hf
    refine ⟨rfl, rfl, ?_, fun k hs => ?_, fun o hm => ?_⟩
    · rw [UInt32.toNat_or, bit]
      exact Nat.or_lt_two_pow ha.small (Nat.pow_lt_pow_right (by decide) few)
    · dsimp only
      rw [UInt32.toNat_or, bit, Nat.testBit_or, ha.seen k hs, Nat.testBit_two_pow]
      have hsa : 4293918721 + k = nameId.toNat ↔ b = k := by omega
      rw [← Bool.decide_or]
      apply decide_eq_decide.mpr
      simp only [Option.isSome_some, if_true, Finset.mem_insert]
      rw [hsa, or_comm]
    · rcases Finset.mem_insert.mp hm with rfl | hb
      · omega
      · exact ha.known o hb

theorem mem_builtinIds (nameId : ℕ) : nameId ∈ (TraceDecoder.builtinNames.map Prod.fst).toFinset ↔
      4293918721 ≤ nameId ∧ nameId ≤ 4293918728 := by
  simp only [TraceDecoder.builtinNames, map_cons, map_nil, mem_toFinset,
    List.mem_cons, List.not_mem_nil, or_false]
  omega

theorem Alike.all_seen (ha : Alike s t) :
    t.seenBuiltins = (TraceDecoder.builtinNames.map Prod.fst).toFinset ↔
      s.builtinMask = ((1 : UInt32) <<< 8) - 1 := by
  rw [← UInt32.toNat_inj]
  change _ ↔ _ = 2 ^ 8 - 1
  constructor
  · intro all
    apply Nat.eq_of_testBit_eq
    intro k
    rw [Nat.testBit_two_pow_sub_one]
    by_cases hs : k < 8
    · rw [ha.seen k hs, all]
      apply decide_eq_decide.mpr
      rw [mem_builtinIds]
      omega
    · rw [Nat.testBit_lt_two_pow (ha.small.trans_le
        (Nat.pow_le_pow_right (by decide) (Nat.not_lt.mp hs)))]
      exact (decide_eq_false hs).symm
  intro hf
  ext nameId
  rw [mem_builtinIds]
  refine ⟨ha.known nameId, fun hr => ?_⟩
  have bit := ha.seen (nameId - 4293918721) (by omega)
  rw [hf, Nat.testBit_two_pow_sub_one, Nat.add_sub_cancel' hr.1] at bit
  exact of_decide_eq_true (bit.symm.trans (decide_eq_true (by omega)))

theorem cursorViews_succ (hs : EntryShape input totalSize offset previous first) (r : ℕ) :
    (cursorViews (r + 1) ⟨input, totalSize, offset, r + 1⟩).map NameView.name =
      entryText input offset ::
        (cursorViews r ⟨input, totalSize, nextOffset input offset, r⟩).map
          NameView.name := by
  have hf := hs.fits
  have hn : vpNameWireCursorNext ⟨input, totalSize, offset, r + 1⟩ =
      .ok (some (⟨readU32Le input offset, entryText input offset, readU16Le input (offset + 6)⟩,
        ⟨input, totalSize, nextOffset input offset, r⟩)) := by
    unfold vpNameWireCursorNext
    simp only [toNat_readU16Le, toNat_vpPaddedNameSize]
    rw [if_neg (Nat.succ_ne_zero _), if_neg (by change ¬(_ ∨ _ < 8); omega),
      if_neg (by change ¬_ - _ - 8 < _; omega)]
    rfl
  rw [cursorViews, hn]
  rfl

section Loops

theorem decodeEntries_sound (hi : totalSize ≤ input.length) {r : ℕ} {t' : EntryLoop}
    (ha : Alike s t) (hd : decodeEntries u input totalSize r i t = .ok t') :
    ∃ s', validateEntries input totalSize r (decide (i = 0)) s = .ok s' ∧ Alike s' t' ∧
      ∀ text ∈ (cursorViews r ⟨input, totalSize, s.offset, r⟩).map NameView.name,
        displaySafe u text := by
  induction r generalizing i s t with
  | zero =>
    cases hd
    exact ⟨s, rfl, ha, nofun⟩
  | succ r ih =>
    unfold decodeEntries at hd
    split at hd
    · cases hd
    case h_2 next he =>
    obtain ⟨hs, hn, name, hsa, rfl⟩ := (decodeEntry_ok hi).mp he
    rw [ha.offset, ha.previous] at hs
    rw [ha.offset] at hn hsa hd
    have hva := validateEntry_ok.mpr ⟨hs, hn, rfl⟩
    have hno := ha.note (readU32Le input s.offset) (nextOffset input s.offset)
      (t.result ++ [⟨number input s.offset 4, name, number input (s.offset + 6) 2⟩])
    rw [toNat_readU32Le] at hno
    obtain ⟨s', hv, hdo, ht⟩ := ih hno hd
    refine ⟨s', ?_, hdo, ?_⟩
    · unfold validateEntries
      rw [hva]
      exact hv
    · rw [cursorViews_succ hs]
      exact forall_mem_cons.mpr ⟨decodeSafeText_ok.mp ⟨name, hsa⟩, ht⟩

theorem decodeEntries_complete (hi : totalSize ≤ input.length) {r : ℕ} {s' : EntryScan}
    (ha : Alike s t)
    (hv : validateEntries input totalSize r (decide (i = 0)) s = .ok s')
    (ht : ∀ text ∈ (cursorViews r ⟨input, totalSize, s.offset, r⟩).map
      NameView.name, displaySafe u text) :
    ∃ t', decodeEntries u input totalSize r i t = .ok t' ∧ Alike s' t' := by
  induction r generalizing i s t with
  | zero =>
    cases hv
    exact ⟨t, rfl, ha⟩
  | succ r ih =>
    unfold validateEntries at hv
    split at hv
    · cases hv
    case h_2 next he =>
    obtain ⟨hsh, hna, rfl⟩ := validateEntry_ok.mp he
    rw [cursorViews_succ hsh] at ht
    obtain ⟨hs, ht⟩ := forall_mem_cons.mp ht
    have hl : ∃ name, decodeSafeName u (entryText input s.offset) i = .ok name :=
      decodeSafeText_ok.mpr hs
    obtain ⟨name, hs⟩ := hl
    rw [← ha.offset, ← ha.previous] at hsh
    have hn := ha.note (readU32Le input s.offset) (nextOffset input s.offset)
      (t.result ++ [⟨number input s.offset 4, name, number input (s.offset + 6) 2⟩])
    rw [← ha.offset] at hna hs hn hv ht
    have hd := (decodeEntry_ok hi).mpr ⟨hsh, hna, name, hs, rfl⟩
    rw [toNat_readU32Le] at hn
    have hv : validateEntries input totalSize r (decide (i + 1 = 0)) _ = .ok s' := hv
    obtain ⟨t', hr, hdo⟩ := ih hn hv ht
    refine ⟨t', ?_, hdo⟩
    unfold decodeEntries
    rw [hd]
    exact hr

end Loops

/-- The header of a block, as both validators check it. -/
structure BlockShape (input : Bytes) : Prop where
  long : 24 ≤ input.length
  magic : number input 0 4 = 0x4d4e5056
  version : number input 4 2 = 1
  headerSize : number input 6 2 = 24
  entryHeaderSize : number input 8 2 = 8
  flags : number input 10 2 = 1
  reserved : number input 20 4 = 0
  enough : 8 ≤ number input 12 4
  few : number input 12 4 ≤ 4104
  large : 24 ≤ number input 16 4
  inside : number input 16 4 ≤ input.length
  room : number input 12 4 ≤ (number input 16 4 - 24) / 12

theorem vpNameWireValidateLe_ok {size : ℕ} :
    vpNameWireValidateLe input = .ok size ↔ BlockShape input ∧ number input 16 4 = size ∧
      ∃ s, validateEntries input size (number input 12 4) true ⟨24, 0, 0⟩ = .ok s ∧
        s.offset = size ∧ s.builtinMask = ((1 : UInt32) <<< 8) - 1 := by
  have hm : readU32Le input 0 = nameWireMagic ↔ number input 0 4 = 0x4d4e5056 := readU32Le_eq_iff ..
  have hv : readU16Le input 4 = nameWireVersion ↔ number input 4 2 = 1 := readU16Le_eq_iff ..
  have hhs : readU16Le input 6 = .ofNat nameWireHeaderSize ↔ number input 6 2 = 24 :=
    readU16Le_eq_iff ..
  have hehs : readU16Le input 8 = .ofNat nameWireEntryHeaderSize ↔
      number input 8 2 = 8 := readU16Le_eq_iff ..
  have hf : readU16Le input 10 = nameWireFlagLittleEndian ↔ number input 10 2 = 1 :=
    readU16Le_eq_iff ..
  have hr : readU32Le input 20 = 0 ↔ number input 20 4 = 0 := readU32Le_eq_iff ..
  unfold vpNameWireValidateLe
  simp only [guard_ok, toNat_readU32Le, ne_eq, not_or, not_not, hm, hv, hhs, hehs, hf, hr]
  constructor
  · rintro ⟨hlo, hm, hv, ⟨hhs, hehs⟩, hf, ⟨hr, hen, few, hl, hi, hro⟩, hre⟩
    split at hre
    · cases hre
    case h_2 s he =>
    obtain ⟨hw, hd⟩ := guard_ok.mp hre
    rw [not_or, not_not, not_not] at hw
    cases hd
    exact ⟨⟨Nat.not_lt.mp hlo, hm, hv, hhs, hehs, hf, hr,
      Nat.not_lt.mp hen, Nat.not_lt.mp few, Nat.not_lt.mp hl, Nat.not_lt.mp hi,
      Nat.not_lt.mp hro⟩, rfl, s, he, hw.1, hw.2⟩
  rintro ⟨hs, rfl, s, he, ho, hma⟩
  refine ⟨Nat.not_lt.mpr hs.long, hs.magic, hs.version,
    ⟨hs.headerSize, hs.entryHeaderSize⟩, hs.flags,
    ⟨hs.reserved, Nat.not_lt.mpr hs.enough, Nat.not_lt.mpr hs.few,
      Nat.not_lt.mpr hs.large, Nat.not_lt.mpr hs.inside, Nat.not_lt.mpr hs.room⟩, ?_⟩
  rw [he]
  exact if_neg fun hw => hw.elim (· ho) (· hma)

theorem decodeDictionary_ok {names : List TraceDecoder.NameEntry} {size : ℕ} :
    decodeDictionary u input = .ok (names, size) ↔ BlockShape input ∧ number input 16 4 = size ∧
      ∃ t, decodeEntries u input size (number input 12 4) 0 ⟨24, 0, ∅, []⟩ = .ok t ∧
        t.offset = size ∧ t.seenBuiltins = (TraceDecoder.builtinNames.map Prod.fst).toFinset ∧
        t.result = names := by
  unfold decodeDictionary
  simp only [refuse_ok, ne_eq, not_or, not_not]
  constructor
  · rintro ⟨hlo, hm, hv, ⟨hhs, hehs, hf⟩, hre, ⟨hen, few⟩, ⟨hl, hi⟩, hro, hr⟩
    split at hr
    · cases hr
    case h_2 t he =>
    obtain ⟨ho, hr⟩ := refuse_ok.mp hr
    obtain ⟨hse, hd⟩ := refuse_ok.mp hr
    cases hd
    exact ⟨⟨Nat.not_lt.mp hlo, hm, hv, hhs, hehs, hf, hre,
      hen, few, hl, hi, Nat.not_lt.mp hro⟩, rfl, t, he, not_not.mp ho,
      not_not.mp hse, rfl⟩
  rintro ⟨hs, rfl, t, he, ho, hse, rfl⟩
  refine ⟨Nat.not_lt.mpr hs.long, hs.magic, hs.version,
    ⟨hs.headerSize, hs.entryHeaderSize, hs.flags⟩, hs.reserved,
    ⟨hs.enough, hs.few⟩, ⟨hs.large, hs.inside⟩, Nat.not_lt.mpr hs.room, ?_⟩
  rw [he]
  dsimp only
  rw [if_neg (not_not.mpr ho), if_neg (not_not.mpr hse)]

/-- The receiver takes a dictionary block exactly when the profiler library does and all of
its names may be displayed. -/
theorem decodeDictionary_agree (u : UnicodeData) (input : Bytes) (size : ℕ) :
    (∃ ns, decodeDictionary u input = .ok (ns, size)) ↔
      vpNameWireValidateLe input = .ok size ∧
        ∀ view ∈ wireViews input, displaySafe u view.name := by
  have hst : Alike ⟨24, 0, 0⟩ ⟨24, 0, ∅, []⟩ := ⟨rfl, rfl, by decide, by decide, nofun⟩
  have hvi (hva : vpNameWireValidateLe input = .ok size) : wireViews input =
      cursorViews (number input 12 4) ⟨input, size, 24, number input 12 4⟩ := by
    unfold wireViews vpNameWireCursorInit
    rw [hva]
    rw [toNat_readU32Le]
  constructor
  · rintro ⟨ns, hd⟩
    obtain ⟨hs, rfl, t, he, ho, hse, _⟩ := decodeDictionary_ok.mp hd
    obtain ⟨s, hv, ha, ht⟩ := decodeEntries_sound hs.inside hst he
    have hva := vpNameWireValidateLe_ok.mpr
      ⟨hs, rfl, s, hv, ha.offset.symm.trans ho, ha.all_seen.mp hse⟩
    refine ⟨hva, fun view hsh => ht view.name ?_⟩
    rw [hvi hva] at hsh
    exact mem_map_of_mem hsh
  rintro ⟨hva, hsa⟩
  obtain ⟨hs, rfl, s, hv, ho, hm⟩ := vpNameWireValidateLe_ok.mp hva
  rw [hvi hva] at hsa
  have hv : validateEntries input _ _ (decide (0 = 0)) _ = .ok s := hv
  obtain ⟨t, he, ha⟩ := decodeEntries_complete hs.inside hst hv (forall_mem_map.mpr hsa)
  exact ⟨t.result, decodeDictionary_ok.mpr
    ⟨hs, rfl, t, he, ha.offset.trans ho, ha.all_seen.mpr hm, rfl⟩⟩

end VitaDebugger.NameAgreement
