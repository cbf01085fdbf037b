import VitaDebugger.BreakpointTable

/-! What a table of breakpoints protects. `Guards base s` says that the occupied
entries are well formed and disjoint, that together with the untouched memory
they still hold every byte of `base`. Each operation keeps the invariant at every
pattern of failed callbacks. -/

namespace VitaDebugger.BreakpointGuards
open AtomicProgram Prog SpanMemory BreakpointPatch BreakpointTable List Function PatchResult

def Covers (b : Breakpoint) (a : ℕ) : Prop := InSpan b.patch.address b.patch.size a

instance (b : Breakpoint) (a : ℕ) : Decidable (Covers b a) :=
  inferInstanceAs (Decidable (InSpan _ _ _))

structure WellFormed (b : Breakpoint) : Prop where
  range : breakpointPatchRangeIsValid b.patch.address b.patch.size
  size : b.patch.size = 2 ∨ b.patch.size = 4
  even : b.patch.address % 2 = 0

structure TableSound (s : BreakpointState) : Prop where
  wellFormed : ∀ i, Occupied (s.breakpoints i) → WellFormed (s.breakpoints i)
  disjoint : ∀ i j, i ≠ j → Occupied (s.breakpoints i) → Occupied (s.breakpoints j) →
    ∀ a, Covers (s.breakpoints i) a → ¬Covers (s.breakpoints j) a

structure Guards (base : Memory) (s : BreakpointState) : Prop extends TableSound s where
  original : ∀ i, Occupied (s.breakpoints i) → (s.breakpoints i).patch.original =
    load base (s.breakpoints i).patch.address (s.breakpoints i).patch.size
  outside : ∀ a, (∀ i, Occupied (s.breakpoints i) → ¬Covers (s.breakpoints i) a) →
    s.mem a = base a

/-- Physical memory with the bytes of each occupied entry replaced by its saved
original: what the debuggee's program is, whatever traps are in place. -/
def logicalMemory (s : BreakpointState) : Memory := fun a =>
  match (finRange maxBreakpoints).find? fun i =>
    Occupied (s.breakpoints i) ∧ Covers (s.breakpoints i) a with
  | some i => (s.breakpoints i).patch.original.getD (a - (s.breakpoints i).patch.address) 0
  | none => s.mem a

variable {s : BreakpointState}

theorem logicalMemory_covered (hs : TableSound s) {i : Index}
    (ho : Occupied (s.breakpoints i)) {a : ℕ} (hc : Covers (s.breakpoints i) a) :
    logicalMemory s a =
      (s.breakpoints i).patch.original.getD (a - (s.breakpoints i).patch.address) 0 := by
  rw [logicalMemory]
  split
  · next j hf =>
    have he : Occupied (s.breakpoints j) ∧ Covers (s.breakpoints j) a := by
      simpa using find?_some hf
    have hsa : j = i := by
      by_contra hd
      exact hs.disjoint j i hd he.1 ho a he.2 hc
    rw [hsa]
  · next ha =>
    have hn := find?_eq_none.mp ha i (mem_finRange i)
    simp [ho, hc] at hn

theorem logicalMemory_uncovered {a : ℕ}
    (hu : ∀ i, Occupied (s.breakpoints i) → ¬Covers (s.breakpoints i) a) :
    logicalMemory s a = s.mem a := by
  rw [logicalMemory]
  split
  · next j hf =>
    have he : Occupied (s.breakpoints j) ∧ Covers (s.breakpoints j) a := by
      simpa using find?_some hf
    exact (hu j he.1 he.2).elim
  · rfl

/-- A sound table guards its logical memory and no other. -/
theorem TableSound.guards (hs : TableSound s) : Guards (logicalMemory s) s where
  __ := hs
  original i ho := by
    apply ext_getElem (by simp [PatchSlot.size])
    intro k hh _
    have hc : Covers (s.breakpoints i) ((s.breakpoints i).patch.address + k) :=
      ⟨by omega, by simp only [PatchSlot.size]; omega⟩
    rw [load_getElem, logicalMemory_covered hs ho hc]
    simp [getD_eq_getElem?_getD, hh]
  outside a hu := (logicalMemory_uncovered hu).symm

theorem Guards.logicalMemory_eq {base : Memory} (hg : Guards base s) : logicalMemory s = base := by
  funext a
  by_cases hc : ∃ i, Occupied (s.breakpoints i) ∧ Covers (s.breakpoints i) a
  · obtain ⟨i, ho, hc⟩ := hc
    have hb : load (logicalMemory s) _ _ = load base _ _ :=
      (hg.toTableSound.guards.original i ho).symm.trans (hg.original i ho)
    exact load_eq_load_iff.mp hb a hc
  · push Not at hc
    rw [logicalMemory_uncovered hc, hg.outside a hc]

theorem not_occupied_cleared : ¬Occupied clearedBreakpoint := by
  simp [Occupied, clearedBreakpoint, PatchSlot.cleared]

theorem emptyTable_guards (mem : Memory) : Guards mem (emptyTable mem) where
  wellFormed _ ho := (not_occupied_cleared ho).elim
  disjoint _ _ _ ho := (not_occupied_cleared ho).elim
  original _ ho := (not_occupied_cleared ho).elim
  outside _ _ := rfl

variable {b : Breakpoint}

theorem WellFormed.covers_address (wf : WellFormed b) : Covers b b.patch.address := by
  have hs := wf.size
  exact ⟨le_refl _, by omega⟩

variable {i j : Index} {base : Memory} {address size : ℕ}

section Update
variable {mem' : Memory}

/-- A change of entry `i` and of the bytes of one span keeps every other entry
intact when that span belongs to none of them. -/
structure Isolated (s : BreakpointState) (i : Index) (address size : ℕ) (mem' : Memory) : Prop where
  own : Occupied (s.breakpoints i) →
    (s.breakpoints i).patch.address = address ∧ (s.breakpoints i).patch.size = size
  others : ∀ j, j ≠ i → Occupied (s.breakpoints j) →
    ∀ a, Covers (s.breakpoints j) a → ¬InSpan address size a
  off : AgreeOff address size s.mem mem'

theorem Guards.isolated (hg : Guards base s) (ho : Occupied (s.breakpoints i))
    (off : AgreeOff (s.breakpoints i).patch.address (s.breakpoints i).patch.size s.mem mem') :
    Isolated s i (s.breakpoints i).patch.address (s.breakpoints i).patch.size mem' where
  own _ := ⟨rfl, rfl⟩
  others j hd ho' := hg.disjoint j i hd ho' ho
  off := off

/-- What the new contents of entry `i` must satisfy after such a change. -/
structure Fits (base mem' : Memory) (address size : ℕ) (b : Breakpoint) : Prop where
  placed : Occupied b → b.patch.address = address ∧ b.patch.size = size
  wellFormed : Occupied b → WellFormed b
  original : Occupied b → b.patch.original = load base address size
  restored : ¬Occupied b → load mem' address size = load base address size

theorem Fits.vacant {mem' : Memory} (hv : ¬Occupied b)
    (hr : load mem' address size = load base address size) : Fits base mem' address size b :=
  ⟨fun h => (hv h).elim, fun h => (hv h).elim, fun h => (hv h).elim, fun _ => hr⟩

/-- No entry covers a byte of the span. -/
def Apart (s : BreakpointState) (address size : ℕ) : Prop :=
  ∀ i, Occupied (s.breakpoints i) → ∀ a, Covers (s.breakpoints i) a → ¬InSpan address size a

theorem setBreakpoint_self (i : Index) (b : Breakpoint) (s : BreakpointState) :
    (setBreakpoint i b s).breakpoints i = b := update_self ..

theorem setBreakpoint_other (hd : j ≠ i) (b : Breakpoint) (s : BreakpointState) :
    (setBreakpoint i b s).breakpoints j = s.breakpoints j :=
  update_of_ne hd ..

theorem Guards.change (hg : Guards base s) (iso : Isolated s i address size mem')
    (hf : Fits base mem' address size b) :
    Guards base (setBreakpoint i b { s with mem := mem' }) where
  wellFormed j occupied := by
    obtain rfl | different := eq_or_ne j i
    · rw [setBreakpoint_self] at occupied ⊢
      exact hf.wellFormed occupied
    · rw [setBreakpoint_other different] at occupied ⊢
      exact hg.wellFormed j occupied
  disjoint j k hdi hfi hs a := by
    obtain rfl | different := eq_or_ne j i
    · rw [setBreakpoint_self] at hfi ⊢
      rw [setBreakpoint_other hdi.symm] at hs ⊢
      obtain ⟨rfl, rfl⟩ := hf.placed hfi
      exact fun hh ht => iso.others k hdi.symm hs a ht hh
    rw [setBreakpoint_other different] at hfi ⊢
    obtain rfl | different' := eq_or_ne k i
    · rw [setBreakpoint_self] at hs ⊢
      obtain ⟨rfl, rfl⟩ := hf.placed hs
      exact iso.others j different hfi a
    · rw [setBreakpoint_other different'] at hs ⊢
      exact hg.disjoint j k hdi hfi hs a
  original j occupied := by
    obtain rfl | different := eq_or_ne j i
    · rw [setBreakpoint_self] at occupied ⊢
      obtain ⟨rfl, rfl⟩ := hf.placed occupied
      exact hf.original occupied
    · rw [setBreakpoint_other different] at occupied ⊢
      exact hg.original j occupied
  outside a uncovered := by
    have own := uncovered i
    rw [setBreakpoint_self] at own
    by_cases hi : InSpan address size a
    · have he : ¬Occupied b := by
        intro occupied
        obtain ⟨rfl, rfl⟩ := hf.placed occupied
        exact own occupied hi
      exact load_eq_load_iff.mp (hf.restored he) a hi
    refine (iso.off a hi).trans (hg.outside a fun j occupied => ?_)
    obtain rfl | different := eq_or_ne j i
    · obtain ⟨rfl, rfl⟩ := iso.own occupied
      exact hi
    · have kept := uncovered j
      rw [setBreakpoint_other different] at kept
      exact kept occupied

end Update

theorem breakpointFind_some {bs : Index → Breakpoint}
    (hf : breakpointFind bs address = some i) :
    Occupied (bs i) ∧ (bs i).patch.address = clearBit0 address := by
  simpa using find?_some hf

theorem breakpointFind_none {bs : Index → Breakpoint}
    (ha : breakpointFind bs address = none) (i : Index)
    (ho : Occupied (bs i)) :
    (bs i).patch.address ≠ clearBit0 address := by
  have none := find?_eq_none.mp ha i (mem_finRange i)
  simp only [decide_eq_true_eq, not_and] at none
  exact none ho

theorem clearBit0_of_even (he : address % 2 = 0) : clearBit0 address = address := by
  simp [clearBit0, he]

theorem clearBit0_even (address : ℕ) : clearBit0 address % 2 = 0 := by
  simp only [clearBit0]
  omega

variable {before after : Index → Breakpoint} {temporary : Bool} {select : Breakpoint → Bool}
  {result : ℤ}

section Operations

theorem Guards.address_injective (hg : Guards base s)
    (hf : Occupied (s.breakpoints i)) (hs : Occupied (s.breakpoints j))
    (hsa : (s.breakpoints i).patch.address = (s.breakpoints j).patch.address) : i = j := by
  by_contra hd
  apply hg.disjoint i j hd hf hs _ (hg.wellFormed i hf).covers_address
  rw [hsa]
  exact (hg.wellFormed j hs).covers_address

theorem Guards.find_self (hg : Guards base s) (ho : Occupied (s.breakpoints i)) :
    breakpointFind s.breakpoints (s.breakpoints i).patch.address = some i := by
  have he := clearBit0_of_even (hg.wellFormed i ho).even
  cases hf : breakpointFind s.breakpoints (s.breakpoints i).patch.address with
  | none => exact (breakpointFind_none hf i ho he.symm).elim
  | some j =>
    obtain ⟨ho', hs⟩ := breakpointFind_some hf
    rw [hg.address_injective ho' ho (hs.trans he)]

/-- An entry whose restoration was attempted and not verified. -/
def pend (b : Breakpoint) : Breakpoint :=
  { b with patch := { b.patch with state := .restorePending } }

theorem occupied_pend (b : Breakpoint) : Occupied (pend b) := by simp [Occupied, pend]

theorem slotPart_put (i : Index) (s : BreakpointState) (t : SlotTarget) : (slotPart i).put s t =
      setBreakpoint i { s.breakpoints i with patch := t.slot } { s with mem := t.mem } := rfl

theorem setTemporary_setBreakpoint (i : Index) (temporary : Bool) (b : Breakpoint)
    (s : BreakpointState) :
    setTemporary i temporary (setBreakpoint i b s) = setBreakpoint i { b with temporary } s := by
  simp [setTemporary, setBreakpoint]

theorem Guards.restored (hg : Guards base s)
    (ho : Occupied (s.breakpoints i)) {result : PatchResult} {t : SlotTarget}
    (hou : RestoreOutcome ((slotPart i).view s) result t) :
    (result = .ok ∧ t.slot = .cleared ∧
        Guards base (setBreakpoint i clearedBreakpoint { s with mem := t.mem })) ∨
      (result ≠ .ok ∧ t.slot = (pend (s.breakpoints i)).patch ∧
        Guards base (setBreakpoint i (pend (s.breakpoints i)) { s with mem := t.mem })) := by
  have wf := hg.wellFormed i ho
  have hor := hg.original i ho
  cases hou with
  | verified mem' off hs =>
    refine .inl ⟨rfl, rfl, hg.change (hg.isolated ho off) ?_⟩
    exact .vacant not_occupied_cleared (hs.trans hor)
  | retained result hf mem' off =>
    refine .inr ⟨hf, rfl, hg.change (hg.isolated ho off) ?_⟩
    exact ⟨fun _ => ⟨rfl, rfl⟩, fun _ => { wf with }, fun _ => hor,
      fun h => (h (occupied_pend _)).elim⟩

theorem Guards.setTemporary (hg : Guards base s)
    (ho : Occupied (s.breakpoints i)) (temporary : Bool) :
    Guards base (setTemporary i temporary s) := by
  have wf := hg.wellFormed i ho
  refine hg.change (hg.isolated ho (.refl _ _ s.mem)) ?_
  exact ⟨fun _ => ⟨rfl, rfl⟩, fun _ => { wf with },
    fun _ => hg.original i ho, fun he => (he ho).elim⟩

theorem Guards.scribble (hg : Guards base s) {mem' : Memory} (ha : Apart s address size)
    (off : AgreeOff address size s.mem mem') :
    Guards (splice address size mem' base) { s with mem := mem' } where
  __ := hg
  original i ho := by
    rw [(splice_agreeOff address size mem' base).load_eq (ha i ho)]
    exact hg.original i ho
  outside a hu := by
    by_cases hi : InSpan address size a
    · rw [splice, if_pos hi]
    · rw [splice, if_neg hi]
      exact (off a hi).trans (hg.outside a hu)

/-- The two ends of a removal at entry `i`. -/
def RemovedAt (breakpoints : Index → Breakpoint) (i : Index) (result : ℤ)
    (breakpoints' : Index → Breakpoint) : Prop :=
  (result = 0 ∧ breakpoints' = update breakpoints i clearedBreakpoint) ∨
    (result < 0 ∧ breakpoints' = update breakpoints i (pend (breakpoints i)))

def Removed (breakpoints : Index → Breakpoint) (address : ℕ) (result : ℤ)
    (breakpoints' : Index → Breakpoint) : Prop :=
  match breakpointFind breakpoints address with
  | none => result = 0 ∧ breakpoints' = breakpoints
  | some i => RemovedAt breakpoints i result breakpoints'

theorem breakpointRemove_spec (hg : Guards base s) (address : ℕ) : (breakpointRemove address).wp
      (fun r t => Guards base t ∧ Removed s.breakpoints address r t.breakpoints) s := by
  simp only [breakpointRemove, wp_bind, wp_read]
  cases hf : breakpointFind s.breakpoints address with
  | none => exact ⟨hg, by simp [Removed, hf]⟩
  | some i =>
    have ho := (breakpointFind_some hf).1
    have wf := hg.wellFormed i ho
    have hv : breakpointPatchSlotMetadataIsValid (s.breakpoints i).patch := by
      refine ⟨?_, wf.range⟩
      cases hst : (s.breakpoints i).patch.state <;> simp_all [Occupied]
    rw [wp_bind]
    apply wp_lift
    apply (restoreOwned_spec none _ hv).mono
    intro result t hou
    rw [slotPart_put]
    obtain ⟨rfl, hs, hg'⟩ | ⟨hfa, hs, hg'⟩ := hg.restored ho hou
    · simp only [↓reduceIte, wp_bind, wp_modify, wp_pure, setTemporary_setBreakpoint, hs]
      refine ⟨hg', ?_⟩
      rw [Removed, hf]
      exact .inl ⟨rfl, rfl⟩
    simp only [hfa, ↓reduceIte, wp_pure, hs]
    refine ⟨hg', ?_⟩
    rw [Removed, hf]
    exact .inr ⟨(code_neg_iff result).mpr hfa, rfl⟩

/-- A sweep over `list`: unselected entries stay, selected ones are cleared or
stay with their recovery data, and a zero result cleared them all. -/
structure Swept (select : Breakpoint → Bool) (list : List Index)
    (before : Index → Breakpoint) (result : ℤ) (after : Index → Breakpoint) : Prop where
  code : result = 0 ∨ result = -1
  entry : ∀ j, after j = before j ∨ (j ∈ list ∧ select (before j) ∧
    (after j = clearedBreakpoint ∨ after j = pend (before j)))
  complete : result = 0 → ∀ j ∈ list, select (before j) → after j = clearedBreakpoint

theorem Swept.skip {rest : List Index} (hs : Swept select rest before result after)
    (hu : select (before i) = false) : Swept select (i :: rest) before result after where
  code := hs.code
  entry j := (hs.entry j).imp_right fun ⟨hm, rest⟩ => ⟨.tail i hm, rest⟩
  complete hz j hm hc := by
    rcases mem_cons.mp hm with rfl | hm
    · simp [hu] at hc
    · exact hs.complete hz j hm hc

theorem Swept.cons {rest : List Index} {m : Index → Breakpoint} {f os : ℤ}
    (chosen : select (before i)) (hf : i ∉ rest) (hr : RemovedAt before i f m)
    (hs : Swept select rest m os after) :
    Swept select (i :: rest) before (if f < 0 then -1 else os) after := by
  have hk : after i = m i := (hs.entry i).resolve_right fun ⟨hm, _⟩ => hf hm
  have he : ∀ j, j ≠ i → m j = before j := by
    intro j different
    rcases hr with ⟨-, rfl⟩ | ⟨-, rfl⟩ <;> exact update_of_ne different ..
  refine ⟨?_, ?_, ?_⟩
  · split
    · exact .inr rfl
    · exact hs.code
  · intro j
    obtain rfl | different := eq_or_ne j i
    · refine .inr ⟨.head rest, chosen, ?_⟩
      rw [hk]
      rcases hr with ⟨-, rfl⟩ | ⟨-, rfl⟩
      · exact .inl (update_self ..)
      · exact .inr (update_self ..)
    · rw [← he j different]
      exact (hs.entry j).imp_right fun ⟨hm, rest⟩ => ⟨.tail i hm, rest⟩
  intro hz j hm hc'
  rcases hr with ⟨rfl, rfl⟩ | ⟨hn, -⟩
  · rcases mem_cons.mp hm with rfl | hm
    · rw [hk, update_self]
    · have different : j ≠ i := fun hsa => hf (hsa ▸ hm)
      exact hs.complete (by simpa using hz) j hm (by rwa [he j different])
  · simp [hn] at hz

theorem removeEach_spec (ha : ∀ b, select b → Occupied b) {l : List Index}
    (hn : l.Nodup) (hg : Guards base s) : (removeEach select l).wp
      (fun r t => Guards base t ∧ Swept select l s.breakpoints r t.breakpoints) s := by
  induction l generalizing s with
  | nil => exact ⟨hg, .inl rfl, fun _ => .inl rfl, by simp⟩
  | cons i rest ih =>
    obtain ⟨hf, hn⟩ := nodup_cons.mp hn
    simp only [removeEach, wp_bind, wp_read]
    rw [wp_ite]
    refine ⟨fun hc => ?_, fun hu => ?_⟩
    · rw [wp_bind]
      apply (breakpointRemove_spec hg _).mono
      rintro first t ⟨hg', hr⟩
      rw [Removed, hg.find_self (ha _ hc)] at hr
      rw [wp_bind]
      apply (ih hn hg').mono
      rintro others u ⟨hg'', hs⟩
      exact ⟨hg'', .cons hc hf hr hs⟩
    · apply (ih hn hg).mono
      rintro r t ⟨hg', hs⟩
      exact ⟨hg', hs.skip (by simpa using hu)⟩

/-- Tables with the same occupied entries; an empty entry has no content. -/
def SameOccupied (before after : Index → Breakpoint) : Prop :=
  ∀ j, Occupied (after j) ∨ Occupied (before j) → after j = before j

inductive Inserted (address size : ℕ) (temporary : Bool) (before : Index → Breakpoint) :
    ℤ → (Index → Breakpoint) → Prop
  | refused {result : ℤ} {after : Index → Breakpoint} (failed : result < 0)
      (same : SameOccupied before after) : Inserted address size temporary before result after
  | present (i : Index) (state : (before i).patch.state = .installed)
      (here : (before i).patch.address = clearBit0 address) (width : (before i).patch.size = size) :
      Inserted address size temporary before 0 before
  | placed {result : ℤ} (i : Index) (b : Breakpoint) (free : ¬Occupied (before i))
      (here : b.patch.address = clearBit0 address) (width : b.patch.size = size)
      (flag : b.temporary = temporary)
      (state : (result = 0 ∧ b.patch.state = .installed) ∨
        (result < 0 ∧ b.patch.state = .restorePending)) :
      Inserted address size temporary before result (update before i b)

theorem Inserted.unmask (hi : Inserted (clearBit0 address) size temporary before result after) :
    Inserted address size temporary before result after := by
  have hm := clearBit0_of_even (clearBit0_even address)
  cases hi with
  | refused hf hsa => exact .refused hf hsa
  | present i hs hh hw => exact .present i hs (hh.trans hm) hw
  | placed i b hfr hh hw hfl hs =>
    exact .placed i b hfr (hh.trans hm) hw hfl hs

theorem Inserted.entry
    (hi : Inserted address size temporary before result after) (ho : Occupied (after j)) :
    after j = before j ∨ (after j).patch.address = clearBit0 address := by
  cases hi with
  | refused hf hsa => exact .inl (hsa j (.inl ho))
  | present i hs hh hw => exact .inl rfl
  | placed i b hfr hh hw hfl hs =>
    obtain rfl | different := eq_or_ne j i
    · rw [update_self]
      exact .inr hh
    · exact .inl (update_of_ne different ..)

theorem trapFor_length (hw : size = 2 ∨ size = 4) : (trapFor size).length = size := by
  rcases hw with rfl | rfl <;> rfl

theorem apart_of_not_rangesOverlap {first firstSize second secondSize : ℕ}
    (ha : ¬rangesOverlap first firstSize second secondSize) (a : ℕ)
    (hi : InSpan second secondSize a) : ¬InSpan first firstSize a := by
  simp only [rangesOverlap, InSpan] at *
  split at ha <;> omega

theorem sameOccupied_update (hf : ¬Occupied (before i)) (hem : ¬Occupied b) :
    SameOccupied before (update before i b) := by
  intro j he
  obtain rfl | different := eq_or_ne j i
  · simp [hem, hf] at he
  · exact update_of_ne different ..

/-- An installation at a free entry over bytes no other entry covers. -/
theorem Guards.installed (hg : Guards base s)
    (hf : ¬Occupied (s.breakpoints i)) (hw : size = 2 ∨ size = 4) (hev : address % 2 = 0)
    (ha : Apart s address size) {mem' : Memory} (off : AgreeOff address size s.mem mem')
    (hr : breakpointPatchRangeIsValid address size) {state : PatchState}
    (ho : state ≠ .empty) (p : Bytes) : Guards base (setBreakpoint i
      ⟨{ publishedSlot none address (load s.mem address size) p with state },
        temporary⟩ { s with mem := mem' }) := by
  have hb : load s.mem address size = load base address size := by
    apply load_eq_load_iff.mpr
    intro a hin
    exact hg.outside a fun j ho' hc => ha j ho' a hc hin
  have hi : Isolated s i address size mem' := ⟨fun h => (hf h).elim, fun j _ => ha j, off⟩
  refine hg.change hi ⟨fun _ => ⟨rfl, load_length _ _ _⟩, fun _ => ?_, fun _ => hb,
    fun he => (he ho).elim⟩
  have hl : (load s.mem address size).length = size := load_length _ _ _
  exact ⟨by simpa [publishedSlot, PatchSlot.size, hl] using hr,
    by simpa [publishedSlot, PatchSlot.size, hl] using hw, hev⟩

theorem wp_insertAt {Q : ℤ → BreakpointState → Prop}
    (h : (breakpointPatchInstall address (trapFor size)).wp
      (fun result t => Q result.code (setBreakpoint i
        ⟨t.slot, if t.slot.state = .empty then false else temporary⟩ { s with mem := t.mem }))
      ((slotPart i).view s)) : (insertAt i address size temporary).wp Q s := by
  simp only [insertAt, wp_bind, wp_modify, wp_pure]
  apply wp_lift
  have hs : (slotPart i).view (setTemporary i temporary s) = (slotPart i).view s := by
    simp [slotPart, setTemporary, setBreakpoint]
  rw [hs]
  apply h.mono
  intro result t hd
  by_cases he : t.slot.state = .empty <;>
    simpa [Occupied, slotPart_put, setTemporary, setBreakpoint, he] using hd

theorem Guards.leave_empty (hg : Guards base s) (hf : ¬Occupied (s.breakpoints i))
    (he : b.patch.state = .empty) : Guards base (setBreakpoint i b s) := by
  have hv : ¬Occupied b := by simp [Occupied, he]
  have hi : Isolated s i 0 0 s.mem :=
    ⟨fun h => (hf h).elim, fun _ _ _ a _ hin => by have := hin.2; omega, .refl _ _ _⟩
  exact hg.change hi (.vacant hv rfl)

theorem insertAt_spec (hg : Guards base s) (temporary : Bool)
    (hf : ¬Occupied (s.breakpoints i)) (hw : size = 2 ∨ size = 4) (he : address % 2 = 0)
    (ha : Apart s address size) :
    (insertAt i address size temporary).wp (fun r t => Guards base t ∧
      Inserted address size temporary s.breakpoints r t.breakpoints) s := by
  apply wp_insertAt
  apply (installOwned_spec none address (trapFor size) _).mono
  have hl := trapFor_length hw
  have hh : address = clearBit0 address := (clearBit0_of_even he).symm
  have hv : (s.breakpoints i).patch.state = .empty := not_not.mp hf
  intro result t ho
  cases ho with
  | refused _ hfa =>
    refine ⟨hg.leave_empty hf hv, .refused ?_ ?_⟩
    · exact (code_neg_iff result).mpr hfa
    · exact sameOccupied_update hf (by simp [Occupied, slotPart, hv])
  | rolledBack _ hfa =>
    refine ⟨hg.leave_empty hf rfl, .refused ?_ ?_⟩
    · exact (code_neg_iff result).mpr hfa
    · exact sameOccupied_update hf (by simp [Occupied, PatchSlot.cleared])
  | pending _ hr _ off =>
    simp only [hl] at hr off ⊢
    refine ⟨hg.installed hf hw he ha off hr (by decide) _, ?_⟩
    exact .placed i _ hf hh (load_length _ _ _) rfl (.inr ⟨by simp [code], rfl⟩)
  | installed _ hr _ off ht =>
    simp only [hl] at hr off ht ⊢
    refine ⟨hg.installed hf hw he ha off hr (by decide) _, ?_⟩
    exact .placed i _ hf hh (load_length _ _ _) rfl (.inl ⟨rfl, rfl⟩)

/-- The branches of an insertion: refused, already there, or made at a free entry whose range no
other entry meets. -/
theorem wp_insertInternal {Q : ℤ → BreakpointState → Prop}
    (hr : ∀ r < 0, Q r s) (hp : ∀ i, (s.breakpoints i).patch.state = .installed →
      (s.breakpoints i).patch.address = clearBit0 address →
      (s.breakpoints i).patch.size = size → Q 0 s)
    (hpl : ∀ i, ¬Occupied (s.breakpoints i) → size = 2 ∨ size = 4 →
      (∀ j, Occupied (s.breakpoints j) → ¬rangesOverlap (clearBit0 address) size
        (s.breakpoints j).patch.address (s.breakpoints j).patch.size) →
      (insertAt i (clearBit0 address) size temporary).wp Q s) :
    (breakpointInsertInternal address size temporary).wp Q s := by
  simp only [breakpointInsertInternal]
  rw [wp_ite]
  refine ⟨fun _ => hr _ (by decide), fun hsi => ?_⟩
  rw [wp_ite]
  refine ⟨fun _ => hr _ (by decide), fun _ => ?_⟩
  simp only [wp_bind, wp_read]
  cases hf : breakpointFind s.breakpoints (clearBit0 address) with
  | some i =>
    obtain ⟨ho, hh⟩ := breakpointFind_some hf
    rw [clearBit0_of_even (clearBit0_even address)] at hh
    rw [wp_ite]
    refine ⟨fun _ => hr _ (by decide), fun hsa => ?_⟩
    rw [wp_ite]
    exact ⟨fun hs => hp i hs hh (not_not.mp hsa), fun _ => hr _ (by decide)⟩
  | none =>
    simp only
    rw [wp_ite]
    refine ⟨fun _ => hr _ (by decide), fun hc => ?_⟩
    cases hsl : breakpointFreeSlot s.breakpoints with
    | none => exact hr _ (by decide)
    | some i =>
      have hfr : ¬Occupied (s.breakpoints i) := by simpa using find?_some hsl
      push Not at hc
      exact hpl i hfr (by omega) hc

theorem insertInternal_spec (hg : Guards base s) (address size : ℕ) (temporary : Bool) :
    (breakpointInsertInternal address size temporary).wp (fun r t => Guards base t ∧
      Inserted address size temporary s.breakpoints r t.breakpoints) s := by
  apply wp_insertInternal
  · exact fun r hn => ⟨hg, .refused hn fun _ _ => rfl⟩
  · exact fun i hs hh hw => ⟨hg, .present i hs hh hw⟩
  intro i hf hw hc
  have ha : Apart s (clearBit0 address) size := fun j ho a => apart_of_not_rangesOverlap (hc j ho) a
  apply (insertAt_spec hg temporary hf hw (clearBit0_even address) ha).mono
  exact fun r t ⟨hg', hi⟩ => ⟨hg', hi.unmask⟩

end Operations

inductive BreakpointCall where
  | insert (address size : ℕ)
  | insertTemporary (address size : ℕ)
  | insertStepTarget (address currentPc : ℕ)
  | insertStepTargetSized (address size currentPc : ℕ)
  | remove (address : ℕ)
  | removeTemporary
  | restorePending
  | removeAll

def BreakpointCall.program : BreakpointCall → Table ℤ
  | .insert address size => breakpointInsert address size
  | .insertTemporary address size => breakpointInsertInternal address size true
  | .insertStepTarget address currentPc => breakpointInsertStepTarget address currentPc
  | .insertStepTargetSized address size currentPc =>
    breakpointInsertStepTargetSized address size currentPc
  | .remove address => breakpointRemove address
  | .removeTemporary => breakpointRemoveTemporary
  | .restorePending => breakpointRestorePending
  | .removeAll => breakpointRemoveAll

/-- States reached from an empty table over `base` by any calls, each with any
answers of its callbacks. -/
inductive BreakpointRun (base : Memory) : BreakpointState → Prop
  | start : BreakpointRun base (emptyTable base)
  | call {s t : BreakpointState} {result : ℤ} (before : BreakpointRun base s)
      (call : BreakpointCall) (ends : call.program.Ends s result t) : BreakpointRun base t

section Run

section
variable (gs : Guards base s)
include gs

theorem insertStepTargetSized_guards (address size currentPc : ℕ) :
    (breakpointInsertStepTargetSized address size currentPc).wp (fun _ t => Guards base t) s := by
  have hi : ∀ tr, (breakpointInsertInternal tr size true).wp
      (fun _ t => Guards base t) s := fun tr =>
    (insertInternal_spec gs tr size true).mono fun _ _ h => h.1
  simp only [breakpointInsertStepTargetSized, wp_ite, wp_pure]
  exact ⟨fun _ => gs, fun _ => ⟨fun _ => gs, fun _ => ⟨fun _ => gs, fun _ => hi _⟩⟩⟩

theorem removeEach_guards (ha : ∀ b, select b → Occupied b) :
    (removeEach select (finRange maxBreakpoints)).wp (fun _ t => Guards base t) s :=
  (removeEach_spec ha (nodup_finRange _) gs).mono fun _ _ h => h.1

theorem removeAll_spec : breakpointRemoveAll.wp (fun r t => Guards base t ∧
      (r = 0 → ∀ i, ¬Occupied (t.breakpoints i))) s := by
  apply (removeEach_spec (by simp) (nodup_finRange _) gs).mono
  rintro r t ⟨hg', hs⟩
  refine ⟨hg', fun hz i ho => ?_⟩
  have he := hs.entry i
  by_cases hb : Occupied (s.breakpoints i)
  · rw [hs.complete hz i (mem_finRange i) (by simpa using hb)] at ho
    exact not_occupied_cleared ho
  · simp only [hb, decide_false, Bool.false_eq_true, false_and, and_false, or_false] at he
    exact hb (he ▸ ho)

theorem BreakpointCall.program_guards (call : BreakpointCall) :
    call.program.wp (fun _ t => Guards base t) s := by
  cases call with
  | insert address size =>
    exact (insertInternal_spec gs address size false).mono fun _ _ h => h.1
  | insertTemporary address size =>
    exact (insertInternal_spec gs address size true).mono fun _ _ h => h.1
  | insertStepTarget address cp => exact insertStepTargetSized_guards gs ..
  | insertStepTargetSized address size cp => exact insertStepTargetSized_guards gs ..
  | remove address => exact (breakpointRemove_spec gs address).mono fun _ _ h => h.1
  | removeTemporary =>
    exact removeEach_guards gs fun b hc => (of_decide_eq_true hc).1
  | restorePending =>
    refine removeEach_guards gs fun b hc => ?_
    simp [Occupied, of_decide_eq_true hc]
  | removeAll => exact removeEach_guards gs (by simp)

end

theorem BreakpointRun.guards (run : BreakpointRun base s) : Guards base s := by
  induction run with
  | start => exact emptyTable_guards base
  | call _ call he ih => exact he.post (call.program_guards ih)

/-- The table never loses a byte of the memory it started from. -/
theorem breakpointTable_recovers_memory (run : BreakpointRun base s) :
    (∀ i j, i ≠ j → Occupied (s.breakpoints i) → Occupied (s.breakpoints j) →
      ∀ a, Covers (s.breakpoints i) a → ¬Covers (s.breakpoints j) a) ∧
    (∀ i, Occupied (s.breakpoints i) → (s.breakpoints i).patch.original =
      load base (s.breakpoints i).patch.address (s.breakpoints i).patch.size) ∧
    (∀ a, (∀ i, Occupied (s.breakpoints i) → ¬Covers (s.breakpoints i) a) → s.mem a = base a) ∧
    (∀ t, breakpointRemoveAll.Ends s 0 t → (∀ i, ¬Occupied (t.breakpoints i)) ∧ t.mem = base) := by
  have hg := run.guards
  refine ⟨hg.disjoint, hg.original, hg.outside, fun t hen => ?_⟩
  obtain ⟨hg', hc⟩ := hen.post (removeAll_spec hg)
  have he := hc rfl
  exact ⟨he, funext fun a => hg'.outside a fun i ho => (he i ho).elim⟩

/-- A Thumb trap over zeroed memory whose patch write is short and whose first
restoration then fails too. -/
theorem breakpointTable_recovers_memory_after_short_write :
    ∃ s, BreakpointRun (fun _ => 0) s ∧ (s.breakpoints 0).patch.state = .restorePending ∧
      s.mem 0x8000 = 7 ∧ (s.breakpoints 0).patch.original = [0, 0] ∧
      ∀ t, breakpointRemoveAll.Ends s 0 t → t.mem = fun _ => 0 := by
  have run : BreakpointRun (fun _ => 0) _ := .call .start (.insert 0x8000 2)
    (@Prog.ends_of_exec _ _ _ _ _
      [quiet, quiet, quiet, { quiet with count := 2 }, quiet, { quiet with count := 1 },
        quiet, quiet, { quiet with count := 1, bytes := fun _ => 7 }, quiet,
        { quiet with count := 2 }, quiet] [] _ _ rfl)
  exact ⟨_, run, rfl, rfl, rfl, fun t he => ((breakpointTable_recovers_memory run).2.2.2 t he).2⟩

end Run
end VitaDebugger.BreakpointGuards
