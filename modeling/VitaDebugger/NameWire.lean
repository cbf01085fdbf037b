import Mathlib.Data.List.Basic
import Mathlib.Tactic.Set
import VitaDebugger.NameDictionary

/-! What a dictionary of the profiler registers stays ordered by identifier, and the wire
block of a sealed dictionary passes its validator. -/

namespace VitaDebugger.NameWire
open LittleEndian NameDictionary List Nat UInt32

theorem and_clear (n : ℕ) (hsm : n < 2 ^ 32) : n &&& 0xfffffffc = n / 4 * 4 := by
  have hm : (0xfffffffc : ℕ) = (2 ^ 30 - 1) <<< 2 := by decide
  have hs : n / 4 * 4 = n >>> 2 <<< 2 := by
    rw [shiftRight_eq_div_pow, shiftLeft_eq]
  rw [hm, hs]
  apply eq_of_testBit_eq
  intro i
  rw [testBit_and, testBit_shiftLeft, testBit_two_pow_sub_one, testBit_shiftLeft,
    testBit_shiftRight]
  by_cases low : 2 ≤ i
  · rw [Nat.add_sub_cancel' low]
    by_cases hh : i < 32
    · simp [low, show i - 2 < 30 by omega]
    · have hc : n.testBit i = false :=
        testBit_lt_two_pow
          (Nat.lt_of_lt_of_le hsm (Nat.pow_le_pow_right (by decide) (by omega)))
      simp [hc]
  · simp [low]

theorem toNat_vpPaddedNameSize (l : UInt16) :
    (vpPaddedNameSize l).toNat = (l.toNat + 3) / 4 * 4 := by
  have hs := l.toNat_lt
  have sum : (l.toUInt32 + 3).toNat = l.toNat + 3 := by
    exact mod_eq_of_lt (by change l.toNat + 3 < _; omega)
  unfold vpPaddedNameSize
  rw [UInt32.toNat_and, sum]
  exact and_clear _ (by omega)

/-- A name that the validator passes wherever it stands in the order. -/
structure ValidView (view : NameView) : Prop where
  id : view.nameId ≠ 0
  nonempty : view.name.length ≠ 0
  bounded : view.name.length ≤ nameMaxLength
  text : (0 : UInt8) ∉ view.name
  kind : (∃ index, vpBuiltinIndex view.nameId = some index ∧ builtinNames[index]? = some view ∧
      view.flags = nameFlagBuiltin) ∨
    (vpBuiltinIndex view.nameId = none ∧ view.flags = nameFlagNone ∧
      vpNameIdBytes view.name = view.nameId)

/-- The bit of a name in the mask of built-in names. -/
def maskBit (view : NameView) : UInt32 :=
  match vpBuiltinIndex view.nameId with
  | some index => 1 <<< UInt32.ofNat index
  | none => 0

variable {view : NameView}

section
variable (v : ValidView view)
include v

theorem vpValidateWireName_valid (mask : UInt32) :
    vpValidateWireName view.nameId view.flags view.name mask = .ok (mask ||| maskBit view) := by
  have ht : ¬view.name.any (· = 0) = true := by simpa using v.text
  unfold vpValidateWireName maskBit
  rw [if_neg ht]
  rcases v.kind with ⟨i, hp, hk, hf⟩ | ⟨hu, hf, hh⟩
  · have he : builtinNames.getD i ⟨0, [], 0⟩ = view := by
      rw [getD_eq_getElem?_getD, hk, Option.getD_some]
    rw [hp]
    dsimp only
    rw [he]
    simp [hf]
  · simp [hu, hf, hh]

theorem toNat_ofNat_length : (UInt16.ofNat view.name.length).toNat = view.name.length := by
  have hb : view.name.length ≤ 255 := v.bounded
  exact UInt16.toNat_ofNat_of_lt' (by change _ < 65536; omega)

theorem padded_length :
    (vpPaddedNameSize (.ofNat view.name.length)).toNat = (view.name.length + 3) / 4 * 4 := by
  rw [toNat_vpPaddedNameSize, toNat_ofNat_length v]

theorem length_encodeEntry : (encodeEntry view).length = entrySize view := by
  have hp := padded_length v
  simp only [encodeEntry, entrySize, length_append, length_writeU32Le, length_writeU16Le,
    length_replicate, nameWireEntryHeaderSize]
  omega

end

variable {totalSize : ℕ}

theorem validateEntry_encode (hv : ValidView view) (before after : Bytes) {f : Bool}
    {previousId mask : UInt32} (hfi : before.length + entrySize view ≤ totalSize)
    (ho : f = true ∨ previousId < view.nameId) :
    validateEntry (before ++ (encodeEntry view ++ after)) totalSize f
        ⟨before.length, previousId, mask⟩ =
      .ok ⟨before.length + entrySize view, view.nameId, mask ||| maskBit view⟩ := by
  have hpa := padded_length hv
  have hl := toNat_ofNat_length hv
  have hbo : view.name.length ≤ 255 := hv.bounded
  have hn := hv.nonempty
  have hno : UInt16.ofNat view.name.length ≠ 0 := fun hz => by
    rw [hz] at hl
    exact hn hl.symm
  have hsi : entrySize view = 8 + (view.name.length + 3) / 4 * 4 := by
    unfold entrySize
    rw [hpa]
  set pad := List.replicate ((view.name.length + 3) / 4 * 4 - view.name.length) (0 : UInt8) with hp
  set hd := writeU32Le view.nameId ++ (writeU16Le (.ofNat view.name.length) ++
    writeU16Le view.flags) with hw
  have hpr : before ++ (encodeEntry view ++ after) =
      (before ++ hd) ++ (view.name ++ (pad ++ after)) := by
    simp only [encodeEntry, hpa, hw, hp, append_assoc]
  have hb : (before ++ hd).length = before.length + 8 := by simp [hw]
  have id : readU32Le (before ++ (encodeEntry view ++ after)) before.length = view.nameId := by
    simp [encodeEntry]
  have hnl : readU16Le (before ++ (encodeEntry view ++ after)) (before.length + 4) =
      .ofNat view.name.length := by
    simp [encodeEntry]
  have hf : readU16Le (before ++ (encodeEntry view ++ after)) (before.length + 6) = view.flags := by
    simp [encodeEntry]
  have ht : ((before ++ (encodeEntry view ++ after)).drop (before.length + 8)).take
      view.name.length = view.name := by
    rw [hpr, drop_left' hb, take_left]
  have hze : ((before ++ (encodeEntry view ++ after)).drop
      (before.length + 8 + view.name.length)).take
        ((view.name.length + 3) / 4 * 4 - view.name.length) = pad := by
    rw [hpr, ← append_assoc, drop_left' (by rw [length_append, hb]),
      take_left' (by rw [hp, length_replicate])]
  unfold validateEntry
  simp only [id, hnl, hf, hl, hpa, ht, hze,
    vpValidateWireName_valid hv mask, nameWireEntryHeaderSize, nameMaxLength]
  rw [if_neg (by omega), if_neg, if_neg]
  · rw [hsi, add_assoc]
  · simp [hp]
  rintro (hz | hz | hlo | ⟨hla, le⟩ | hsh)
  · exact hv.id hz
  · exact hno hz
  · omega
  · rcases ho with hs | hle
    · rw [hs] at hla
      cases hla
    · exact absurd hle (UInt32.not_lt.mpr le)
  · omega

def Ordered (views : List NameView) : Prop := views.Pairwise fun a b => a.nameId < b.nameId

/-- The mask of the built-in names among `views`, on top of `mask`. -/
def maskOf (mask : UInt32) (views : List NameView) : UInt32 :=
  views.foldl (fun mask view => mask ||| maskBit view) mask

variable {vs : List NameView}

theorem length_flatMap_encodeEntry (hv : ∀ view ∈ vs, ValidView view) :
    (vs.flatMap encodeEntry).length = (vs.map entrySize).sum := by
  induction vs with
  | nil => rfl
  | cons view vs ih =>
    rw [forall_mem_cons] at hv
    rw [flatMap_cons, length_append, ih hv.2, length_encodeEntry hv.1, map_cons, sum_cons]

theorem validateEntries_encode (hv : ∀ view ∈ vs, ValidView view) (ho : Ordered vs)
    {f : Bool} (previousId m : UInt32) (before : Bytes)
    (hf : before.length + (vs.map entrySize).sum ≤ totalSize)
    (hs : f = true ∨ ∀ view ∈ vs, previousId < view.nameId) :
    ∃ id, validateEntries (before ++ vs.flatMap encodeEntry) totalSize vs.length f
        ⟨before.length, previousId, m⟩ =
      .ok ⟨before.length + (vs.map entrySize).sum, id, maskOf m vs⟩ := by
  induction vs generalizing before f previousId m with
  | nil => exact ⟨previousId, rfl⟩
  | cons view vs ih =>
    rw [forall_mem_cons] at hv
    obtain ⟨hle, ho⟩ := pairwise_cons.mp ho
    rw [map_cons, sum_cons] at hf ⊢
    have hl : (before ++ encodeEntry view).length = before.length + entrySize view := by
      rw [length_append, length_encodeEntry hv.1]
    obtain ⟨id, hr⟩ :=
      ih hv.2 ho view.nameId (m ||| maskBit view) (before ++ encodeEntry view) (by omega) (.inr hle)
    refine ⟨id, ?_⟩
    rw [flatMap_cons, length_cons, validateEntries,
      validateEntry_encode hv.1 before (vs.flatMap encodeEntry) (by omega)
        (hs.imp_right fun hls => hls view mem_cons_self)]
    rw [hl, append_assoc] at hr
    rw [← add_assoc]
    exact hr

theorem valid_builtinNames : ∀ view ∈ builtinNames, ValidView view := by
  intro view mem
  simp only [builtinNames, mem_cons, not_mem_nil, or_false] at mem
  rcases mem with rfl | rfl | rfl | rfl | rfl | rfl | rfl | rfl <;>
    exact ⟨by decide, by decide, by decide, by decide, .inl ⟨_, rfl, rfl, rfl⟩⟩

theorem mergedViews_cons (fuel : ℕ) (u builtin : NameView) (us bs : List NameView) :
    mergedViews (fuel + 1) (u :: us) (builtin :: bs) =
      if u.nameId < builtin.nameId then u :: mergedViews fuel us (builtin :: bs)
      else builtin :: mergedViews fuel (u :: us) bs := by
  rw [mergedViews, vpMergedView]
  by_cases hl : u.nameId < builtin.nameId
  · rw [if_pos hl, if_pos hl]
  · rw [if_neg hl, if_neg hl]

theorem mergedViews_perm (f : ℕ) (us bs : List NameView)
    (he : us.length + bs.length ≤ f) :
    (mergedViews f us bs).Perm (us ++ bs) := by
  induction f generalizing us bs with
  | zero =>
    obtain ⟨hnu, hnb⟩ : us = [] ∧ bs = [] := by
      constructor <;> exact eq_nil_of_length_eq_zero (by omega)
    rw [hnu, hnb]
    exact .refl _
  | succ f ih =>
    match us, bs with
    | [], [] => exact .refl _
    | u :: us, [] => exact (ih us [] (by simp at he ⊢; omega)).cons u
    | [], bl :: bs => exact (ih [] bs (by simp at he ⊢; omega)).cons bl
    | u :: us, bl :: bs =>
      simp only [length_cons] at he
      rw [mergedViews_cons]
      split
      · exact (ih us (bl :: bs) (by simp only [length_cons]; omega)).cons u
      · exact ((ih (u :: us) bs (by simp only [length_cons]; omega)).cons
          bl).trans perm_middle.symm

theorem mergedViews_ordered (fuel : ℕ) {us bs : List NameView}
    (he : us.length + bs.length ≤ fuel) (ho : Ordered us)
    (hbo : Ordered bs)
    (ha : ∀ u ∈ us, ∀ builtin ∈ bs, u.nameId ≠ builtin.nameId) :
    Ordered (mergedViews fuel us bs) := by
  induction fuel generalizing us bs with
  | zero => exact .nil
  | succ fuel ih =>
    match us, bs with
    | [], [] => exact .nil
    | u :: us, [] =>
      have hs : us.length + ([] : List NameView).length ≤ fuel := by
        simp at he ⊢
        omega
      obtain ⟨hl, ho⟩ := pairwise_cons.mp ho
      refine .cons (fun view mem => hl view ?_) (ih hs ho hbo nofun)
      simpa using (mergedViews_perm fuel us [] hs).mem_iff.mp mem
    | [], builtin :: bs =>
      have hs : ([] : List NameView).length + bs.length ≤ fuel := by
        simp at he ⊢
        omega
      obtain ⟨hl, hbo⟩ := pairwise_cons.mp hbo
      refine .cons (fun view mem => hl view ?_) (ih hs ho hbo nofun)
      simpa using (mergedViews_perm fuel [] bs hs).mem_iff.mp mem
    | u :: us, builtin :: bs =>
      obtain ⟨hl, hro⟩ := pairwise_cons.mp ho
      obtain ⟨hbl, hrb⟩ := pairwise_cons.mp hbo
      simp only [length_cons] at he
      rw [mergedViews_cons]
      split
      case isTrue hle =>
        have hs : us.length + (builtin :: bs).length ≤ fuel := by
          simp only [length_cons]
          omega
        refine .cons (fun view mem => ?_) (ih hs hro hbo
          fun other mem => ha other (mem_cons_of_mem _ mem))
        rcases mem_append.mp ((mergedViews_perm fuel _ _ hs).mem_iff.mp mem) with own | other
        · exact hl view own
        · rcases mem_cons.mp other with rfl | hla
          · exact hle
          · exact UInt32.lt_trans hle (hbl view hla)
      case isFalse hnl =>
        have hs : (u :: us).length + bs.length ≤ fuel := by
          simp only [length_cons]
          omega
        have hle : builtin.nameId < u.nameId := UInt32.lt_of_le_of_ne (UInt32.not_lt.mp hnl)
          (ha u mem_cons_self builtin mem_cons_self).symm
        refine .cons (fun view mem => ?_) (ih hs ho hrb
          fun other mem k hla => ha other mem k (mem_cons_of_mem _ hla))
        rcases mem_append.mp ((mergedViews_perm fuel _ _ hs).mem_iff.mp mem) with other | own
        · rcases mem_cons.mp other with rfl | hla
          · exact hle
          · exact UInt32.lt_trans hle (hl view hla)
        · exact hbl view own

theorem maskOf_perm {os : List NameView} (hp : vs.Perm os) (m : UInt32) :
    maskOf m vs = maskOf m os := by
  refine hp.foldl_eq' (fun first _ second _ m => ?_) m
  rw [UInt32.or_assoc, UInt32.or_comm (maskBit first), ← UInt32.or_assoc]

theorem maskOf_users {us : List NameView}
    (hu : ∀ view ∈ us, vpBuiltinIndex view.nameId = none) (mask : UInt32) :
    maskOf mask us = mask := by
  induction us with
  | nil => rfl
  | cons view us ih =>
    rw [forall_mem_cons] at hu
    have hc : maskBit view = 0 := by
      unfold maskBit
      rw [hu.1]
    unfold maskOf
    rw [foldl_cons, hc, UInt32.or_zero]
    exact ih hu.2

/-- A dictionary in use: the entries are ordered by identifier, lie in the text, and hold
valid names that are not built in. -/
structure WellFormed (d : Dictionary) : Prop where
  ordered : d.entries.Pairwise fun a b => a.nameId < b.nameId
  within : ∀ entry ∈ d.entries, entry.textOffset + entry.textLength ≤ d.text.length
  valid : ∀ entry ∈ d.entries, ValidView ⟨entry.nameId, d.entryText entry, nameFlagNone⟩
  user : ∀ entry ∈ d.entries, vpBuiltinIndex entry.nameId = none
  capacity : d.entries.length ≤ d.entryCapacity
  bounded : d.entryCapacity ≤ maxEntries

/-- Where `nameId` belongs among the entries. -/
structure Splits (d : Dictionary) (nameId : UInt32) (index : ℕ) : Prop where
  le : index ≤ d.entries.length
  below : ∀ i < index, d.nameIdAt i < nameId
  above : ∀ i, index ≤ i → i < d.entries.length → nameId ≤ d.nameIdAt i

variable {d : Dictionary}

section
variable (o : d.entries.Pairwise fun a b => a.nameId < b.nameId)
include o

theorem nameIdAt_lt
    {i j : ℕ} (lt : i < j) (hb : j < d.entries.length) : d.nameIdAt i < d.nameIdAt j := by
  have hl := pairwise_iff_getElem.mp o i j (lt.trans hb) hb lt
  unfold Dictionary.nameIdAt
  rwa [getD_eq_getElem _ _ (lt.trans hb), getD_eq_getElem _ _ hb]

theorem lowerBoundLoop_splits (nameId : UInt32)
    (fuel first c : ℕ) (hen : c ≤ fuel) (hbo : first + c ≤ d.entries.length)
    (hb : ∀ i < first, d.nameIdAt i < nameId)
    (ha : ∀ i, first + c ≤ i → i < d.entries.length → nameId ≤ d.nameIdAt i) :
    Splits d nameId (d.lowerBoundLoop nameId fuel first c) := by
  induction fuel generalizing first c with
  | zero =>
    have hd : first + c = first := by omega
    exact ⟨by rw [Dictionary.lowerBoundLoop]; omega, hb, hd ▸ ha⟩
  | succ fuel ih =>
    rw [Dictionary.lowerBoundLoop]
    split
    case isTrue he => exact ⟨by omega, hb, by rwa [he] at ha⟩
    case isFalse hm =>
      dsimp only
      split
      case isTrue hl =>
        refine ih (first + c / 2 + 1) (c - (c / 2 + 1)) (by omega) (by omega) ?_ ?_
        · intro i lt
          rcases lt_or_eq_of_le (le_of_lt_succ lt) with hbe | hh
          · exact UInt32.lt_trans (nameIdAt_lt o hbe (by omega)) hl
          · exact hh ▸ hl
        · intro i le
          exact ha i (by omega)
      case isFalse hnl =>
        refine ih first (c / 2) (by omega) (by omega) hb ?_
        intro i le lt
        rcases lt_or_eq_of_le le with haf | hh
        · exact UInt32.le_trans (UInt32.not_lt.mp hnl) (UInt32.le_of_lt (nameIdAt_lt o haf lt))
        · exact hh ▸ UInt32.not_lt.mp hnl

theorem vpUserLowerBound_splits (nameId : UInt32) : Splits d nameId (d.vpUserLowerBound nameId) :=
  lowerBoundLoop_splits o nameId _ 0 _ (le_refl _) (by omega) nofun
    (fun i le lt => absurd lt (by omega))

end

theorem vpBoundedNameLength_ok {name : ℕ → UInt8} {l : ℕ}
    (hb : vpBoundedNameLength name = .ok l) :
    l ≠ 0 ∧ l ≤ nameMaxLength ∧ ∀ i < l, name i ≠ 0 := by
  unfold vpBoundedNameLength at hb
  split at hb
  · cases hb
  case isFalse hn =>
    split at hb
    case h_2 => cases hb
    case h_1 hf =>
      cases hb
      obtain ⟨hz, mem, hbe⟩ := find?_range_eq_some.mp hf
      refine ⟨fun hno => hn ?_, ?_, fun i lt => ?_⟩
      · rw [hno] at hz
        exact of_decide_eq_true hz
      · exact le_of_lt_succ (mem_range.mp mem)
      · have ho := hbe i lt
        simpa using ho

theorem vpNameIdBytes_ne_zero (name : Bytes) : vpNameIdBytes name ≠ 0 := by
  unfold vpNameIdBytes
  dsimp only
  split
  · decide
  · assumption

variable {e : NameEntry}

theorem entryText_append {entries : List NameEntry}
    (hw : e.textOffset + e.textLength ≤ d.text.length) (more : Bytes) :
    ({ d with entries, text := d.text ++ more } : Dictionary).entryText e = d.entryText e := by
  unfold Dictionary.entryText
  rw [drop_append_of_le_length (by omega), take_append_of_le_length]
  rw [length_drop]
  omega

variable {d' : Dictionary} {ind : ℕ} {id : UInt32}

theorem WellFormed.insert {id' : UInt32} {text : Bytes}
    (hwf : WellFormed d) (hbe : ∀ e ∈ d.entries.take ind, e.nameId < id)
    (hab : ∀ e ∈ d.entries.drop ind, id < e.nameId)
    (hv : ValidView ⟨id, text, nameFlagNone⟩) (hu : vpBuiltinIndex id = none)
    (hi : d.insert ind id text = .ok (d', id')) : WellFormed d' := by
  unfold Dictionary.insert at hi
  split at hi
  · cases hi
  case isFalse hr =>
  cases hi
  have old : ∀ e ∈ d.entries, e.textOffset + e.textLength ≤ d.text.length := hwf.within
  have hm {P : NameEntry → Prop} (hk : ∀ e ∈ d.entries, P e)
      (new : P ⟨id, d.text.length, text.length⟩) :
      ∀ e ∈ d.entries.take ind ++ ⟨id, d.text.length, text.length⟩ :: d.entries.drop ind,
        P e := by
    intro e mem
    rcases mem_append.mp mem with hb | hh
    · exact hk e (mem_of_mem_take hb)
    · rcases mem_cons.mp hh with rfl | ha
      · exact new
      · exact hk e (mem_of_mem_drop ha)
  have ho := hwf.ordered
  rw [← take_append_drop ind d.entries, pairwise_append] at ho
  refine ⟨?_, hm ?_ ?_, hm ?_ ?_, hm hwf.user hu, ?_, hwf.bounded⟩
  · refine pairwise_append.mpr ⟨ho.1, .cons hab ho.2.1, ?_⟩
    intro f mem s hh
    rcases mem_cons.mp hh with rfl | ha
    · exact hbe f mem
    · exact ho.2.2 f mem s ha
  · intro e mem
    have hw := old e mem
    rw [length_append]
    omega
  · simp only [length_append, length_cons, length_nil]
    omega
  · intro e mem
    rw [entryText_append (old e mem)]
    exact hwf.valid e mem
  · have own : ({ d with
        entries := d.entries.take ind ++ ⟨id, d.text.length, text.length⟩ :: d.entries.drop ind
        text := d.text ++ (text ++ [0]) } : Dictionary).entryText ⟨id, d.text.length, text.length⟩ =
          text := by
      unfold Dictionary.entryText
      rw [drop_left, take_left]
    rw [own]
    exact hv
  · have hc := hwf.capacity
    simp only [length_append, length_cons, length_take, length_drop]
    omega

theorem exists_of_mem_take (mem : e ∈ d.entries.take ind) : ∃ i < ind, d.nameIdAt i = e.nameId := by
  obtain ⟨i, lt, hh⟩ := mem_iff_getElem.mp mem
  rw [length_take] at lt
  rw [getElem_take] at hh
  refine ⟨i, by omega, ?_⟩
  unfold Dictionary.nameIdAt
  rw [getD_eq_getElem _ _ (by omega), hh]

theorem exists_of_mem_drop (mem : e ∈ d.entries.drop ind) :
    ∃ i, ind ≤ i ∧ i < d.entries.length ∧ d.nameIdAt i = e.nameId := by
  obtain ⟨i, lt, hh⟩ := mem_iff_getElem.mp mem
  rw [length_drop] at lt
  rw [getElem_drop] at hh
  refine ⟨ind + i, by omega, by omega, ?_⟩
  unfold Dictionary.nameIdAt
  rw [getD_eq_getElem _ _ (by omega), hh]

theorem WellFormed.registerText {t : Bytes} (hwf : WellFormed d)
    (hn : t.length ≠ 0) (hsh : t.length ≤ nameMaxLength)
    (hno : (0 : UInt8) ∉ t) (hr : d.registerText t = .ok (d', id)) :
    WellFormed d' := by
  unfold Dictionary.registerText at hr
  dsimp only at hr
  split at hr
  · cases hr
  case isFalse hnb =>
  have hu : vpBuiltinIndex (vpNameIdBytes t) = none := by simpa using hnb
  have hv : ValidView ⟨vpNameIdBytes t, t, nameFlagNone⟩ :=
    ⟨vpNameIdBytes_ne_zero t, hn, hsh, hno, .inr ⟨hu, rfl, rfl⟩⟩
  have hs := vpUserLowerBound_splits hwf.ordered (vpNameIdBytes t)
  set ind := d.vpUserLowerBound (vpNameIdBytes t)
  have hb : ∀ e ∈ d.entries.take ind, e.nameId < vpNameIdBytes t := by
    intro e mem
    obtain ⟨i, lt, hh⟩ := exists_of_mem_take mem
    exact hh ▸ hs.below i lt
  split at hr
  case h_1 e hf =>
    obtain ⟨lt, hh⟩ := List.getElem?_eq_some_iff.mp hf
    split at hr
    · split at hr
      · cases hr
      · cases hr
        exact hwf
    case isFalse hd =>
      have hne : d.nameIdAt ind = e.nameId := by
        unfold Dictionary.nameIdAt
        rw [getD_eq_getElem _ _ lt, hh]
      have hl : vpNameIdBytes t < d.nameIdAt ind :=
        UInt32.lt_of_le_of_ne (hs.above ind (le_refl _) lt) (hne ▸ Ne.symm hd)
      refine hwf.insert hb ?_ hv hu hr
      intro other mem
      obtain ⟨i, le, hbo, hsa⟩ := exists_of_mem_drop mem
      rcases lt_or_eq_of_le le with hla | rfl
      · exact hsa ▸ UInt32.lt_trans hl (nameIdAt_lt hwf.ordered hla hbo)
      · exact hsa ▸ hl
  case h_2 hf =>
    have hls := getElem?_eq_none_iff.mp hf
    refine hwf.insert hb ?_ hv hu hr
    rw [drop_eq_nil_of_le hls]
    exact nofun

theorem WellFormed.register {name : Option (ℕ → UInt8)} (hwf : WellFormed d)
    (hr : d.vpNameDictionaryRegister name = .ok (d', id)) : WellFormed d' := by
  unfold Dictionary.vpNameDictionaryRegister at hr
  split at hr
  · cases hr
  split at hr
  · cases hr
  split at hr
  · cases hr
  case h_2 length hb =>
    obtain ⟨hn, hs, hno⟩ := vpBoundedNameLength_ok hb
    refine hwf.registerText (by simpa using hn) (by simpa using hs) ?_ hr
    intro hz
    obtain ⟨i, lt, hh⟩ := mem_map.mp hz
    exact hno i (mem_range.mp lt) hh

/-- The dictionaries that initialisation, registrations and sealing lead to. -/
inductive Registered : Dictionary → Prop
  | init {entryCapacity textCapacity : ℕ} {d : Dictionary}
      (created : vpNameDictionaryInit entryCapacity textCapacity = .ok d) : Registered d
  | register {d d' : Dictionary} {name : Option (ℕ → UInt8)} {id : UInt32} (before : Registered d)
      (registered : d.vpNameDictionaryRegister name = .ok (d', id)) : Registered d'
  | close {d : Dictionary} (before : Registered d) : Registered d.vpNameDictionarySeal

theorem Registered.wellFormed (hr : Registered d) : WellFormed d := by
  induction hr with
  | init hc =>
    unfold vpNameDictionaryInit at hc
    split at hc
    · cases hc
    case isFalse ha =>
      cases hc
      exact ⟨.nil, nofun, nofun, nofun, zero_le _, not_lt.mp fun hl => ha (.inl hl)⟩
  | register hb hr ih => exact ih.register hr
  | close hb ih => exact { ih with }

theorem ordered_builtinNames : Ordered builtinNames := by
  unfold Ordered
  decide

section Views
variable (wf : WellFormed d)

theorem views_perm (d : Dictionary) : d.views.Perm (d.userViews ++ builtinNames) :=
  mergedViews_perm _ _ _ (by rw [Dictionary.userViews, length_map]; rfl)

include wf in
theorem valid_views : ∀ view ∈ d.views, ValidView view := by
  intro view mem
  rcases mem_append.mp ((views_perm d).mem_iff.mp mem) with hu | hb
  · obtain ⟨e, hh, rfl⟩ := mem_map.mp hu
    exact wf.valid e hh
  · exact valid_builtinNames view hb

include wf in
theorem ordered_views : Ordered d.views := by
  refine mergedViews_ordered _ (by rw [Dictionary.userViews, length_map]; rfl)
    (pairwise_map.mpr wf.ordered) ordered_builtinNames ?_
  intro view mem bl hk hs
  obtain ⟨e, hh, rfl⟩ := mem_map.mp mem
  have hu := wf.user e hh
  have hp : ∀ bl ∈ builtinNames, vpBuiltinIndex bl.nameId ≠ none := by decide
  exact hp bl hk (hs ▸ hu)

include wf in
theorem maskOf_views : maskOf 0 d.views = ((1 : UInt32) <<< 8) - 1 := by
  have hus : ∀ view ∈ d.userViews, vpBuiltinIndex view.nameId = none := by
    intro view mem
    obtain ⟨e, hh, rfl⟩ := mem_map.mp mem
    exact wf.user e hh
  have hu := maskOf_users hus 0
  rw [maskOf_perm (views_perm d), maskOf, foldl_append]
  rw [maskOf] at hu
  rw [hu]
  decide

theorem length_views (d : Dictionary) : d.views.length = d.entries.length + builtinNameCount := by
  rw [(views_perm d).length_eq, length_append, Dictionary.userViews, length_map]
  rfl

theorem sum_views (d : Dictionary) : (d.views.map entrySize).sum =
    (d.userViews.map entrySize).sum + (builtinNames.map entrySize).sum := by
  rw [((views_perm d).map entrySize).sum_nat, map_append, sum_append_nat]

end Views

theorem length_mul_le_sum (hv : ∀ view ∈ vs, ValidView view) :
    12 * vs.length ≤ (vs.map entrySize).sum := by
  induction vs with
  | nil => exact zero_le _
  | cons view vs ih =>
    rw [forall_mem_cons] at hv
    have hr := ih hv.2
    have hn := hv.1.nonempty
    have hp := padded_length hv.1
    rw [map_cons, sum_cons, length_cons]
    unfold entrySize nameWireEntryHeaderSize
    unfold entrySize nameWireEntryHeaderSize at hr
    omega

/-- The header of a block. -/
def blockHeader (entryCount totalSize : ℕ) : Bytes :=
  writeU32Le nameWireMagic ++ (writeU16Le nameWireVersion ++
    (writeU16Le (.ofNat nameWireHeaderSize) ++ (writeU16Le (.ofNat nameWireEntryHeaderSize) ++
      (writeU16Le nameWireFlagLittleEndian ++ (writeU32Le (.ofNat entryCount) ++
        (writeU32Le (.ofNat totalSize) ++ writeU32Le 0))))))

theorem length_blockHeader (entryCount totalSize : ℕ) :
    (blockHeader entryCount totalSize).length = nameWireHeaderSize := by
  simp [blockHeader]

theorem blockHeader_words {entryCount : ℕ} (few : entryCount < 2 ^ 32) (hs : totalSize < 2 ^ 32)
    (rest : Bytes) : let input := blockHeader entryCount totalSize ++ rest
    readU32Le input 0 = nameWireMagic ∧ readU16Le input 4 = nameWireVersion ∧
      readU16Le input 6 = .ofNat nameWireHeaderSize ∧
      readU16Le input 8 = .ofNat nameWireEntryHeaderSize ∧
      readU16Le input 10 = nameWireFlagLittleEndian ∧
      (readU32Le input 12).toNat = entryCount ∧ (readU32Le input 16).toNat = totalSize ∧
      readU32Le input 20 = 0 := by
  have hc : (UInt32.ofNat entryCount).toNat = entryCount := toNat_ofNat_of_lt' few
  have ht : (UInt32.ofNat totalSize).toNat = totalSize := toNat_ofNat_of_lt' hs
  simp [blockHeader, -toNat_ofNat', hc, ht]

theorem vpEncodeNameDictionaryLe_ok {c : ℕ} {bs : Bytes}
    (he : vpEncodeNameDictionaryLe d c = .ok bs) :
    ∃ t, t = nameWireHeaderSize + (d.views.map entrySize).sum ∧ t < 2 ^ 32 ∧
      t ≤ c ∧
      bs = blockHeader (d.entries.length + builtinNameCount) t ++
        d.views.flatMap encodeEntry := by
  cases hs : vpNameDictionaryWireSize d with
  | error e =>
    rw [vpEncodeNameDictionaryLe, hs] at he
    cases he
  | ok t =>
    rw [vpEncodeNameDictionaryLe, hs] at he
    change (if _ then _ else _) = _ at he
    split at he
    · cases he
    case isFalse hr =>
    cases he
    unfold vpNameDictionaryWireSize at hs
    split at hs
    · cases hs
    dsimp only at hs
    split at hs
    · cases hs
    case isFalse hsm =>
    cases hs
    refine ⟨nameWireHeaderSize + (d.userViews.map entrySize).sum + (builtinNames.map entrySize).sum,
      ?_, by omega, by omega, ?_⟩
    · rw [sum_views, add_assoc]
    · simp only [blockHeader, append_assoc]

/-- The block of a sealed dictionary fits the buffer it was written to and passes the
validator to its last byte. -/
theorem vpNameWireValidateLe_encode (hwf : WellFormed d) {capacity : ℕ}
    {bs : Bytes} (hen : vpEncodeNameDictionaryLe d capacity = .ok bs) :
    vpNameWireValidateLe bs = .ok bs.length ∧ bs.length ≤ capacity := by
  obtain ⟨total, hs, hsm, hro, rfl⟩ := vpEncodeNameDictionaryLe_ok hen
  have hv := valid_views hwf
  have hle := length_mul_le_sum hv
  have hc := length_views d
  have capacity := hwf.capacity
  have hb := hwf.bounded
  have hl : (blockHeader (d.entries.length + builtinNameCount) total ++
      d.views.flatMap encodeEntry).length = total := by
    rw [length_append, length_blockHeader, length_flatMap_encodeEntry hv, hs]
  rw [hl]
  refine ⟨?_, hro⟩
  simp only [nameWireHeaderSize, builtinNameCount, maxEntries] at hs hc hb
  obtain ⟨hm, hve, hhs, hehs, hf, hec, hts, hr⟩ :=
    blockHeader_words (show d.entries.length + builtinNameCount < 2 ^ 32 by
      change d.entries.length + 8 < _; omega) hsm (d.views.flatMap encodeEntry)
  obtain ⟨id, hsc⟩ : ∃ id, validateEntries
      (blockHeader (d.entries.length + builtinNameCount) total ++ d.views.flatMap encodeEntry) total
        (d.entries.length + builtinNameCount) true ⟨nameWireHeaderSize, 0, 0⟩ =
      .ok ⟨total, id, ((1 : UInt32) <<< 8) - 1⟩ := by
    have he := validateEntries_encode hv (ordered_views hwf) 0 0
      (blockHeader (d.entries.length + builtinNameCount) total) (le_of_eq hs.symm)
      (.inl rfl : true = true ∨ _)
    rw [maskOf_views hwf, length_views, length_blockHeader, ← hs] at he
    exact he
  have hlo : ¬total < nameWireHeaderSize := by
    change ¬total < 24
    omega
  have hsi : ¬(d.entries.length + builtinNameCount < builtinNameCount ∨
      maxEntries + builtinNameCount < d.entries.length + builtinNameCount ∨
      total < nameWireHeaderSize ∨ total < total ∨
      (total - nameWireHeaderSize) / (nameWireEntryHeaderSize + 4) <
        d.entries.length + builtinNameCount) := by
    change ¬(_ + 8 < 8 ∨ 4096 + 8 < _ + 8 ∨ total < 24 ∨ _ ∨ (total - 24) / 12 < _ + 8)
    omega
  unfold vpNameWireValidateLe
  simp only [hl, hm, hve, hhs, hehs, hf, hec, hts,
    hr, hsc, ne_eq, not_true_eq_false, false_or, if_false, if_neg hlo, if_neg hsi]

end VitaDebugger.NameWire
