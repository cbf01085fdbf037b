import VitaDebugger.BrokerHost
import VitaDebugger.BrokerWire
import VitaDebugger.TerminatedLines

/-! The records of the attach broker on both sides: a header line and one line for each key, in
order, all printable and within one frame. -/

namespace VitaDebugger.BrokerRecords
open AsciiText BrokerHost BrokerWire Fallible TerminatedLines List Nat

/-- The line of one field. -/
def fieldLine (key value : Bytes) : Bytes := key ++ 61 :: value

def recordText (header : Bytes) (keys values : List Bytes) : Bytes :=
  unlines 10 (header :: zipWith fieldLine keys values)

def WireByte (c : UInt8) : Prop := c = 10 ∨ 0x20 ≤ c ∧ c ≤ 0x7e

theorem wireByte_iff (c : UInt8) : ¬(c ≠ 10 ∧ (c < 0x20 ∨ c > 0x7e)) ↔ WireByte c := by
  by_cases hn : c = 10
  · simp [WireByte, hn]
  · simp [WireByte, hn]

/-- The data is the record of these values. -/
structure Record (header : Bytes) (keys : List Bytes) (data : Bytes)
    (values : List Bytes) : Prop where
  count : values.length = keys.length
  filled : ∀ value ∈ values, value ≠ []
  lines : ∀ value ∈ values, 10 ∉ value
  text : data = recordText header keys values
  printable : ∀ c ∈ data, WireByte c
  frame : data.length ≤ 4096

section Lines
variable {keys vls : List Bytes}

theorem exists_fieldLine {v : Bytes} (hc : vls.length = keys.length)
    (hi : v ∈ vls) : ∃ key, fieldLine key v ∈ zipWith fieldLine keys vls := by
  obtain ⟨i, hb, rfl⟩ := getElem_of_mem hi
  have ht : i < (zipWith fieldLine keys vls).length := by
    rw [length_zipWith]
    omega
  refine ⟨keys[i], ?_⟩
  rw [← getElem_zipWith (h := ht)]
  exact getElem_mem ht

theorem fieldLines_bytes {P : UInt8 → Prop} (sign : P 61) (hk : ∀ key ∈ keys, ∀ c ∈ key, P c)
    (hv : ∀ value ∈ vls, ∀ c ∈ value, P c) :
    ∀ line ∈ zipWith fieldLine keys vls, ∀ c ∈ line, P c := by
  intro line hi
  obtain ⟨i, hb, rfl⟩ := getElem_of_mem hi
  have hkb := lt_length_left_of_zipWith hb
  have hvb := lt_length_right_of_zipWith hb
  rw [getElem_zipWith, fieldLine, forall_mem_append, forall_mem_cons]
  exact ⟨hk _ (getElem_mem hkb), sign, hv _ (getElem_mem hvb)⟩

theorem fieldLines_plain (hkp : ∀ key ∈ keys, 10 ∉ key) (hvp : ∀ value ∈ vls, 10 ∉ value) :
    ∀ line ∈ zipWith fieldLine keys vls, 10 ∉ line := by
  have plain := @fieldLines_bytes keys vls (· ≠ 10) (by decide)
    (fun key hi c hc he => hkp key hi (he ▸ hc)) fun value hi c hc he => hvp value hi (he ▸ hc)
  exact fun line hi hc => plain line hi 10 hc rfl

theorem recordText_bytes {P : UInt8 → Prop} {hd : Bytes} (ending : P 10) (sign : P 61)
    (hh : ∀ c ∈ hd, P c) (hk : ∀ key ∈ keys, ∀ c ∈ key, P c)
    (hv : ∀ value ∈ vls, ∀ c ∈ value, P c) : ∀ c ∈ recordText hd keys vls, P c := by
  intro c hc
  obtain ⟨line, hi, hl⟩ := mem_flatMap.mp hc
  rcases mem_append.mp hl with hl | he
  · rcases mem_cons.mp hi with rfl | hi
    · exact hh c hl
    · exact fieldLines_bytes sign hk hv line hi c hl
  · exact mem_singleton.mp he ▸ ending

end Lines

section Broker
variable {hd data : Bytes} {keys vs : List Bytes}

theorem cutLine_some {i line rest : Bytes} :
    cutLine i = some (line, rest) ↔ i = line ++ 10 :: rest ∧ 10 ∉ line := by
  induction i generalizing line with
  | nil => simp [cutLine]
  | cons c i ih =>
    rw [cutLine]
    split
    · rename_i hn
      subst hn
      cases line with
      | nil => simp [eq_comm]
      | cons d line =>
        simp only [Option.some.injEq, Prod.mk.injEq, nil_eq, reduceCtorEq, false_and,
          cons_append, cons.injEq, mem_cons, not_or, false_iff, not_and]
        rintro ⟨hs, _⟩ hu
        exact absurd hs hu
    rename_i ho
    rw [Option.map_eq_some_iff]
    cases line with
    | nil =>
      simp [ho]
    | cons d line =>
      constructor
      · rintro ⟨⟨inner, behind⟩, hf, hs⟩
        cases hs
        obtain ⟨rfl, hp⟩ := ih.mp hf
        exact ⟨rfl, by simpa [hp] using Ne.symm ho⟩
      rintro ⟨hs, hp⟩
      rw [cons_append, cons.injEq] at hs
      rw [mem_cons, not_or] at hp
      exact ⟨(line, rest), ih.mpr ⟨hs.2, hp.2⟩, by rw [hs.1]⟩

theorem fieldLine_of {row key : Bytes} (hl : ¬row.length ≤ key.length)
    (hs : row.take key.length = key) (he : row[key.length]? = some 61) :
    row = fieldLine key (row.drop (key.length + 1)) := by
  have hb : key.length < row.length := by omega
  have hsi : row[key.length] = 61 := by
    rw [getElem?_eq_getElem hb] at he
    exact Option.some.inj he
  calc row = row.take key.length ++ row.drop key.length := (take_append_drop _ _).symm
    _ = fieldLine key (row.drop (key.length + 1)) := by
      rw [hs, drop_eq_getElem_cons hb, hsi, fieldLine]

theorem fieldLine_drop (key value : Bytes) :
    (fieldLine key value).drop (key.length + 1) = value := by
  rw [fieldLine, ← drop_drop, drop_left]
  rfl

theorem parseFields_ok {c : Bytes} (hpl : ∀ key ∈ keys, 10 ∉ key) :
    parseFields keys c = .ok vs ↔
      vs.length = keys.length ∧ (∀ value ∈ vs, value ≠ []) ∧ (∀ value ∈ vs, 10 ∉ value) ∧
        c = unlines 10 (zipWith fieldLine keys vs) := by
  induction keys generalizing c vs with
  | nil =>
    simp only [parseFields, bind_ok, ensure_ok, length_nil, length_eq_zero_iff]
    constructor
    · rintro ⟨_, rfl, hsa⟩
      cases hsa
      simp [unlines]
    · rintro ⟨rfl, _, _, rfl⟩
      exact ⟨(), rfl, rfl⟩
  | cons key keys ih =>
    obtain ⟨hfp, hop⟩ := forall_mem_cons.mp hpl
    rw [parseFields]
    constructor
    · intro run
      split at run
      · cases run
      rename_i line rest cut
      simp only [bind_ok, ensure_ok, not_or, not_not] at run
      obtain ⟨_, ⟨hl, hs, he⟩, _, hf, tail, hp, hr⟩ := run
      cases hr
      obtain ⟨rfl, hlp⟩ := cutLine_some.mp cut
      obtain ⟨hc, hof, hol, rfl⟩ := (ih hop).mp hp
      have hw := fieldLine_of hl hs he
      refine ⟨?_, ?_, ?_, ?_⟩
      · rw [length_cons, length_cons, hc]
      · exact forall_mem_cons.mpr ⟨hf, hof⟩
      · refine forall_mem_cons.mpr ⟨?_, hol⟩
        exact fun hi => hlp (mem_of_mem_drop hi)
      · rw [zipWith_cons_cons, unlines_cons, ← hw]
    rintro ⟨hc, hf, hli, rfl⟩
    cases vs with
    | nil => cases hc
    | cons value vs =>
      obtain ⟨hff, hof⟩ := forall_mem_cons.mp hf
      obtain ⟨hfl, hol⟩ := forall_mem_cons.mp hli
      have hlp : 10 ∉ fieldLine key value := by
        simp [fieldLine, hfp, hfl]
      have cut : cutLine (unlines 10 (zipWith fieldLine (key :: keys) (value :: vs))) =
          some (fieldLine key value, unlines 10 (zipWith fieldLine keys vs)) :=
        cutLine_some.mpr ⟨by rw [zipWith_cons_cons, unlines_cons], hlp⟩
      rw [cut]
      simp only [bind_ok, ensure_ok, not_or, not_not, fieldLine_drop]
      refine ⟨(), ⟨?_, ?_, ?_⟩, (), hff, vs, (ih hop).mpr ?_, rfl⟩
      · simp [fieldLine]
      · simp [fieldLine]
      · simp [fieldLine]
      · exact ⟨Nat.succ.inj hc, hof, hol, rfl⟩

/-- The broker takes exactly the records of the keys. -/
theorem vdParseRecord_ok (few : keys.length ≤ 11) (hhp : 10 ∉ hd)
    (hp : ∀ key ∈ keys, 10 ∉ key) :
    vdParseRecord data hd keys = .ok vs ↔ Record hd keys data vs := by
  rw [vdParseRecord]
  simp only [bind_ok, ensure_ok, all_eq_true, decide_eq_true_eq, wireByte_iff]
  constructor
  · rintro ⟨_, hsh, _, hb, run⟩
    split at run
    · cases run
    rename_i line cursor cut
    rw [bind_ok] at run
    obtain ⟨_, hs, run⟩ := run
    rw [ensure_ok] at hs
    obtain ⟨rfl, _⟩ := cutLine_some.mp cut
    obtain ⟨hc, hf, hli, rfl⟩ := (parseFields_ok hp).mp run
    refine ⟨hc, hf, hli, ?_, hb, ?_⟩
    · rw [hs, recordText, unlines_cons]
    · exact not_lt.mp fun hlo => hsh (Or.inr (Or.inl hlo))
  intro hr
  have hl : data.getLast? = some 10 := by
    rw [hr.text]
    exact getLast?_unlines (cons_ne_nil _ _)
  have cut : cutLine data = some (hd, unlines 10 (zipWith fieldLine keys vs)) :=
    cutLine_some.mpr ⟨by rw [hr.text, recordText, unlines_cons], hhp⟩
  rw [cut]
  refine ⟨(), ?_, (), hr.printable, ?_⟩
  · rintro (he | hlo | hm | ho)
    · rw [length_eq_zero_iff.mp he] at hl
      cases hl
    · exact not_lt.mpr hr.frame hlo
    · omega
    · exact ho hl
  · refine bind_ok.mpr ⟨(), ensure_ok.mpr rfl, (parseFields_ok hp).mpr ?_⟩
    exact ⟨hr.count, hr.filled, hr.lines, rfl⟩

end Broker

section Host
variable {label : String} {data : Bytes}

theorem fieldValue_ok {line v : Bytes} {key : String} :
    fieldValue line key label = .ok v ↔ v ≠ [] ∧ line = fieldLine (ascii key) v := by
  have hsi : ascii key ++ [61] ++ v = fieldLine (ascii key) v := by simp [fieldLine]
  simp only [fieldValue, bind_ok, ensure_ok]
  constructor
  · rintro ⟨_, hs, _, hf, hr⟩
    cases hr
    refine ⟨hf, ?_⟩
    rw [fieldLine, ← singleton_append, ← append_assoc]
    nth_rewrite 1 [← take_append_drop (ascii key ++ [61]).length line]
    rw [hs]
  · rintro ⟨hf, rfl⟩
    rw [← hsi, take_left, drop_left]
    exact ⟨(), rfl, (), hf, rfl⟩

theorem parseLines_ok {ls : List Bytes} {keys : List String} {fs : Values}
    (hc : ls.length = keys.length) :
    parseLines label ls keys = .ok fs ↔
      ∃ val : List Bytes, val.length = keys.length ∧ (∀ v ∈ val, v ≠ []) ∧
        ls = zipWith fieldLine (keys.map ascii) val ∧ fs = keys.zip val := by
  induction keys generalizing ls fs with
  | nil =>
    rw [length_nil, length_eq_zero_iff] at hc
    subst hc
    rw [parseLines, Except.ok.injEq]
    · constructor
      · rintro rfl
        exact ⟨[], rfl, fun _ hi => absurd hi not_mem_nil, rfl, rfl⟩
      · rintro ⟨val, _, _, _, rfl⟩
        rfl
    · simp
  | cons key keys ih =>
    cases ls with
    | nil => cases hc
    | cons line ls =>
      simp only [parseLines, bind_ok, fieldValue_ok, ih (Nat.succ.inj hc)]
      constructor
      · rintro ⟨v, ⟨hf, rfl⟩, _, ⟨val, hl, ho, rfl, rfl⟩, hr⟩
        cases hr
        refine ⟨v :: val, by rw [length_cons, hl, length_cons], ?_, rfl, rfl⟩
        exact forall_mem_cons.mpr ⟨hf, ho⟩
      rintro ⟨val, hl, hf, hs, rfl⟩
      cases val with
      | nil => cases hl
      | cons v val =>
        obtain ⟨hfi, ho⟩ := forall_mem_cons.mp hf
        rw [map_cons, zipWith_cons_cons, cons.injEq] at hs
        exact ⟨v, ⟨hfi, hs.1⟩, _, ⟨val, Nat.succ.inj hl, ho, hs.2, rfl⟩, rfl⟩

/-- The lines of a record, split at the line feeds, and its fields. -/
theorem splitOn_record {he : String} {keys : List String} {fs : Values}
    (hhp : 10 ∉ ascii he) (hpl : ∀ key ∈ keys.map ascii, 10 ∉ key)
    (hl : data.getLast? = some 10) :
    ((data.dropLast.splitOn 10).head? = some (ascii he) ∧
      (data.dropLast.splitOn 10).length = keys.length + 1 ∧
      parseLines label (data.dropLast.splitOn 10).tail keys = .ok fs) ↔
    ∃ val : List Bytes, val.length = keys.length ∧ (∀ v ∈ val, v ≠ []) ∧
      (∀ v ∈ val, 10 ∉ v) ∧ data = recordText (ascii he) (keys.map ascii) val ∧
      fs = keys.zip val := by
  constructor
  · rintro ⟨hh, hco, run⟩
    obtain ⟨f, ls, hs⟩ := exists_cons_of_ne_nil (splitOn_ne_nil 10 data.dropLast)
    rw [hs] at hh hco run
    obtain rfl : f = ascii he := Option.some.inj hh
    obtain ⟨val, hle, hf, hsh, rfl⟩ := (parseLines_ok (Nat.succ.inj hco)).mp run
    have ht : data = unlines 10 (ascii he :: ls) := by rw [← hs, unlines_splitOn hl]
    refine ⟨val, hle, hf, ?_, by rw [ht, hsh, recordText], rfl⟩
    intro v hi hn
    obtain ⟨key, hli⟩ := @exists_fieldLine (keys.map ascii) val v
      (by rw [hle, length_map]) hi
    rw [← hsh] at hli
    refine not_mem_of_mem_splitOn (hs ▸ mem_cons_of_mem _ hli) ?_
    exact mem_append_right _ (mem_cons_of_mem _ hn)
  · rintro ⟨val, hc, hf, hv, ht, rfl⟩
    have hs : data.dropLast.splitOn 10 =
        ascii he :: zipWith fieldLine (keys.map ascii) val := by
      rw [ht]
      refine splitOn_dropLast_unlines (cons_ne_nil _ _) (forall_mem_cons.mpr ?_)
      exact ⟨hhp, fieldLines_plain hpl hv⟩
    have hlc : (zipWith fieldLine (keys.map ascii) val).length = keys.length := by
      rw [length_zipWith, hc, length_map, min_self]
    rw [hs]
    exact ⟨rfl, by rw [length_cons, hlc], (parseLines_ok hlc).mpr ⟨val, hc, hf, rfl, rfl⟩⟩

/-- The host takes the same records, as a dictionary. -/
theorem parseRecord_ok {hdr : String} {keys : List String} {fs : Values}
    (hhp : 10 ∉ ascii hdr) (hpl : ∀ key ∈ keys.map ascii, 10 ∉ key) :
    parseRecord data hdr keys label = .ok fs ↔
      ∃ val, Record (ascii hdr) (keys.map ascii) data val ∧ fs = keys.zip val := by
  simp only [parseRecord, bind_ok, ensure_ok, any_eq_false, all_eq_true, decide_eq_true_eq]
  constructor
  · rintro ⟨_, hsi, _, he, _, hb, _, _, _, hh, _, hco, run⟩
    rw [not_or] at hsi
    have hl : data.getLast? = some 10 := Classical.not_not.mp fun ho => he (Or.inl ho)
    obtain ⟨val, hc, hf, hv, ht, hz⟩ := (splitOn_record hhp hpl hl).mp ⟨hh, hco, run⟩
    refine ⟨val, ⟨by rw [hc, length_map], hf, hv, ht, fun c hi => ?_, not_lt.mp hsi.2⟩, hz⟩
    refine Classical.not_not.mp fun hou => hb c hi ?_
    rwa [WireByte, not_or] at hou
  rintro ⟨val, hr, hz⟩
  have hl : data.getLast? = some 10 := by
    rw [hr.text]
    exact getLast?_unlines (cons_ne_nil _ _)
  have hc : val.length = keys.length := by rw [hr.count, length_map]
  obtain ⟨hh, hco, run⟩ := (@splitOn_record label data _ _ _ hhp hpl hl).mpr
    ⟨val, hc, hr.filled, hr.lines, hr.text, hz⟩
  have hbo (c : UInt8) (hi : c ∈ data) : c = 10 ∨ 0x20 ≤ c ∧ c ≤ 0x7e := hr.printable c hi
  refine ⟨(), ?_, (), ?_, (), ?_, (), ?_, (), hh, (), hco, run⟩
  · rintro (rfl | hlo)
    · cases hl
    · exact not_lt.mpr hr.frame hlo
  · rintro (ho | hc | hz)
    · exact ho hl
    · exact absurd (hbo _ hc) (by decide)
    · exact absurd (hbo _ hz) (by decide)
  · rintro c hi ⟨ho, hou⟩
    rcases hbo c hi with hn | hp
    · exact ho hn
    · exact hou hp
  · intro c hi
    rcases hbo c hi with rfl | hp
    · decide
    · exact UInt8.lt_of_le_of_lt hp.2 (by decide)

end Host

end VitaDebugger.BrokerRecords
