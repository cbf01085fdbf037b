import VitaDebugger.ConsoleFrame
import VitaDebugger.VCont

/-! Selected threads over whole sessions. A selector outlives the thread it names, and what is
planned with it then is refused; the plans of the legacy packets for the whole process are those
of `vCont`. -/

namespace VitaDebugger.ThreadSelection
open RspHex ThreadControl VCont List

structure Session where
  inventory : ThreadInventory
  selection : ThreadSelection

/-- An added id is an `int32_t`. A stop is noted with or without the inventory at hand. -/
inductive Op where
  | resetInventory
  | add (id : ℤ) (fits : id ≤ int32Max)
  | resetSelection
  | apply (operation : UInt8) (text : Bytes)
  | noteStop (thread : ℤ) (known : Bool)
  | noteResume
  | reconcile

/-- A refused call changes nothing. -/
def Session.step (s : Session) : Op → Session
  | .resetInventory => { s with inventory := [] }
  | .add id _ => { s with inventory := (threadInventoryAdd s.inventory id).getD s.inventory }
  | .resetSelection => { s with selection := threadSelectionReset }
  | .apply operation text => { s with
      selection := (threadSelectionApply s.selection operation text s.inventory).getD s.selection }
  | .noteStop thread known => { s with
      selection :=
        threadSelectionNoteStop s.selection thread (if known then some s.inventory else none) }
  | .noteResume => { s with selection := threadSelectionNoteResume s.selection }
  | .reconcile => { s with selection := threadSelectionReconcile s.selection s.inventory }

def Session.run (s : Session) (ops : List Op) : Session := ops.foldl Session.step s

def startSession : Session := ⟨[], threadSelectionReset⟩

def Valid (inventory : ThreadInventory) : Prop :=
  threadInventoryValid inventory ∧ ∀ id ∈ inventory, id ≤ int32Max

theorem valid_add {inventory : ThreadInventory} (hv : Valid inventory) {id : ℤ}
    (hfi : id ≤ int32Max) : Valid ((threadInventoryAdd inventory id).getD inventory) := by
  obtain ⟨⟨hsh, hp, hn⟩, hs⟩ := hv
  unfold threadInventoryAdd
  split_ifs with hr hk full
  · exact ⟨⟨hsh, hp, hn⟩, hs⟩
  · exact ⟨⟨hsh, hp, hn⟩, hs⟩
  · exact ⟨⟨hsh, hp, hn⟩, hs⟩
  push Not at hr
  have hf : id ∉ inventory := fun mem => hk ⟨hr.1, hr.2, mem⟩
  refine ⟨⟨?_, ?_, ?_⟩, ?_⟩
  · simp only [Option.getD_some, length_append, length_singleton]
    omega
  · simpa [or_imp, forall_and] using ⟨hp, hr.2⟩
  · exact nodup_append.mpr ⟨hn, pairwise_singleton _ id,
      fun _ mem _ hl hsa => hf (mem_singleton.mp hl ▸ hsa ▸ mem)⟩
  · simpa [or_imp, forall_and] using ⟨hs, hfi⟩

theorem Session.run_valid (ops : List Op) {s : Session} (hv : Valid s.inventory) :
    Valid (s.run ops).inventory := by
  induction ops generalizing s with
  | nil => exact hv
  | cons op ops ih =>
    refine ih (s := s.step op) ?_
    cases op with
    | resetInventory => exact ⟨⟨Nat.zero_le _, nofun, .nil⟩, nofun⟩
    | add id hf => exact valid_add hv hf
    | resetSelection => exact hv
    | apply => exact hv
    | noteStop => exact hv
    | noteResume => exact hv
    | reconcile => exact hv

variable {thread : ℤ}

section Plans
variable {inventory : ThreadInventory} {selection : ThreadSelection} {s : Bool}
  {plan : ResumePlan}

theorem resolveSelector_missing {s : ℤ} (hn : 0 < s) (hm : s ∉ inventory) :
    resolveSelector s selection inventory = threadAll := by
  unfold resolveSelector
  split
  · rfl
  · exact if_neg fun hk => hm hk.2.2

theorem resolveSelector_mem {s : ℤ} (hf : 0 < resolveSelector s selection inventory) :
    resolveSelector s selection inventory ∈ inventory := by
  unfold resolveSelector at hf ⊢
  split_ifs at hf ⊢ with hr named hk hp
  · exact absurd hf (by decide)
  · exact hk.2.2
  · exact absurd hf (by decide)
  · exact hp.2.2.2
  · push Not at hr
    obtain ⟨first, rest, rfl⟩ := exists_cons_of_ne_nil hr.2.1
    exact mem_cons_self

theorem planLegacy_cases (hp : threadSelectionPlanLegacy selection inventory s = some plan) :
    threadInventoryValid inventory ∧ inventory ≠ [] ∧
    threadSelectionStep selection inventory ∈ inventory ∧
    (0 < selection.resume → s = true ∧ selection.resume = selection.stopped) ∧
    plan = ⟨if s then .step else .continue,
      if s then threadSelectionStep selection inventory else threadAll,
      if 0 < selection.resume then .stoppedThread else .process⟩ := by
  unfold threadSelectionPlanLegacy at hp
  dsimp only at hp
  split at hp
  · cases hp
  next ha =>
  split at hp
  · cases hp
  next own =>
  split at hp
  · cases hp
  split at hp
  · cases hp
  next hs =>
  push Not at ha own
  refine ⟨ha.1, ha.2.1, resolveSelector_mem (not_le.mp hs), fun hn => ?_, (Option.some.inj hp).symm⟩
  exact ⟨by simpa using (own hn).1, (own hn).2⟩

theorem exists_threadText (hp : 0 < thread) (hsm : thread ≤ int32Max) :
    ∃ text, ThreadText text thread := by
  obtain ⟨n, rfl⟩ := Int.eq_ofNat_of_zero_le hp.le
  have hbo : n < 2 ^ 31 := by
    unfold int32Max at hsm
    omega
  have hd (value : ℕ) : hexValue (ConsoleFrame.hexDigit (UInt8.ofNat (value % 16))) =
      some (UInt8.ofNat (value % 16)) ∧ (UInt8.ofNat (value % 16)).toNat = value % 16 := by
    have hb : (UInt8.ofNat (value % 16)).toNat = value % 16 :=
      UInt8.toNat_ofNat_of_lt' (by change _ < 256; omega)
    exact ⟨ConsoleFrame.hexValue_hexDigit (by omega), hb⟩
  let ps := [n / 16 ^ 7, n / 16 ^ 6, n / 16 ^ 5, n / 16 ^ 4, n / 16 ^ 3, n / 16 ^ 2, n / 16, n]
  have value : numeral ((ps.map fun p => UInt8.ofNat (p % 16)).map UInt8.toNat) = n := by
    simp only [ps, map_cons, map_nil, (hd _).2, numeral, foldl_cons, foldl_nil]
    omega
  have hs := ThreadText.id (ps.map fun p => ConsoleFrame.hexDigit (UInt8.ofNat (p % 16)))
    (ps.map fun p => UInt8.ofNat (p % 16))
    (by simp [ps, mapM_cons, (hd _).1]) (by simp [ps]) (by simp [ps])
    (by rw [value]; unfold int32Max; omega)
  rw [value] at hs
  exact ⟨_, hs⟩

/-- `c` -/
def continueAction : VcontAction := ⟨.continue, threadAll, false⟩

theorem spells_continue : Spells (vcontHead ++ [99]) [continueAction] :=
  ⟨[[99]], rfl, by decide, by decide, .cons (.bare .continue) .nil⟩

theorem spells_step {text : Bytes} (id : ThreadText text thread) :
    Spells (vcontHead ++ (115 :: 58 :: (text ++ [59, 99])))
      [⟨.step, thread, true⟩, continueAction] :=
  ⟨[115 :: 58 :: text, [99]], by simp [List.intercalate], by simp, Nat.le_of_ble_eq_true rfl,
    .cons (.named .step id) (.cons (.bare .continue) .nil)⟩

theorem vcont_continue (hv : threadInventoryValid inventory) (hf : inventory ≠ [])
    (i : ResumePlan) : rspParseVcont (vcontHead ++ [99]) inventory i =
      (0, ⟨.continue, threadAll, .process⟩) := by
  have hn (thread : ℤ) : ¬Steps inventory [continueAction] thread := by
    rintro ⟨before, a, after, hs, -, -, hk⟩
    have hl : a ∈ [continueAction] := by simp [hs]
    rw [mem_singleton.mp hl] at hk
    cases hk
  have ha : Admissible inventory [continueAction] := by
    refine ⟨fun a mem => ?_, fun thread _ => ⟨_, mem_singleton_self _, .inl rfl⟩,
      fun _ _ _ _ hst => absurd hst (hn _)⟩
    rw [mem_singleton.mp mem]
    exact nofun
  rw [rspParseVcont_accept hv hf spells_continue ha,
    planOf_continue hv hf fun thread _ => hn thread]

theorem vcont_step (hv : threadInventoryValid inventory) (hf : inventory ≠ [])
    (hm : thread ∈ inventory) {text : Bytes} (id : ThreadText text thread)
    (i : ResumePlan) :
    rspParseVcont (vcontHead ++ (115 :: 58 :: (text ++ [59, 99]))) inventory i =
      (0, ⟨.step, thread, .process⟩) := by
  have positive := hv.2.1 thread hm
  have only {o : ℤ} (mem : o ∈ inventory)
      (steps : Steps inventory [⟨.step, thread, true⟩, continueAction] o) : o = thread := by
    obtain ⟨before, a, after, split, -, matched, kind⟩ := steps
    have listed : a ∈ [⟨.step, thread, true⟩, continueAction] := by simp [split]
    rcases mem_pair.mp listed with rfl | rfl
    · rcases matched with bare | all | ⟨any, -⟩ | same
      · cases bare
      · dsimp only at all
        omega
      · dsimp only at any
        omega
      · exact same.symm
    · cases kind
  have admissible : Admissible inventory [⟨.step, thread, true⟩, continueAction] := by
    refine ⟨fun a mem => ?_, fun o _ => ⟨continueAction, by simp, .inl rfl⟩,
      fun _ mem _ mem' steps steps' => (only mem steps).trans (only mem' steps').symm⟩
    rcases mem_pair.mp mem with rfl | rfl
    · exact fun _ _ => hm
    · exact nofun
  have steps : Steps inventory [⟨.step, thread, true⟩, continueAction] thread :=
    ⟨[], _, [continueAction], rfl, nofun, .inr (.inr (.inr rfl)), rfl⟩
  rw [rspParseVcont_accept hv hf (spells_step id) admissible, planOf_step hv hf admissible hm steps]

end Plans

/-- In every session: what is selected is present, a selector that names an absent thread selects
nothing, and the legacy plans are as narrow as their selector. -/
theorem selection_never_widens (ops : List Op) : let s := startSession.run ops
    (s.inventory.length ≤ 64 ∧ (∀ id ∈ s.inventory, 0 < id) ∧ s.inventory.Nodup) ∧
    (0 < s.selection.general → s.selection.general ∉ s.inventory →
      threadSelectionGeneral s.selection s.inventory = threadAll) ∧
    (0 < s.selection.resume → s.selection.resume ∉ s.inventory →
      threadSelectionStep s.selection s.inventory = threadAll ∧
      ∀ st, threadSelectionPlanLegacy s.selection s.inventory st = none) ∧
    (1 < s.inventory.length → s.selection.resume = threadAll →
      threadSelectionPlanLegacy s.selection s.inventory true = none) ∧
    ∀ st plan, threadSelectionPlanLegacy s.selection s.inventory st = some plan →
      (0 < s.selection.resume → st = true ∧ s.selection.resume = s.selection.stopped ∧
        plan = ⟨.step, s.selection.stopped, .stoppedThread⟩) ∧
      (plan.scope = .process → ∀ i, if st = false
        then rspParseVcont (vcontHead ++ [99]) s.inventory i = (0, plan)
        else (∃ t, ThreadText t plan.stepThread) ∧ ∀ t, ThreadText t plan.stepThread →
          rspParseVcont (vcontHead ++ (115 :: 58 :: (t ++ [59, 99]))) s.inventory i =
            (0, plan)) := by
  intro s
  obtain ⟨hv, hsm⟩ : Valid s.inventory :=
    Session.run_valid ops ⟨⟨Nat.zero_le _, nofun, .nil⟩, nofun⟩
  refine ⟨hv, resolveSelector_missing, fun hn hm => ⟨resolveSelector_missing hn hm,
    fun st => ?_⟩, fun hse all => ?_, fun st plan hp => ?_⟩
  · by_contra hp
    obtain ⟨plan, hp⟩ := Option.ne_none_iff_exists'.mp hp
    obtain ⟨-, -, hs, -⟩ := planLegacy_cases hp
    rw [threadSelectionStep, resolveSelector_missing hn hm] at hs
    exact absurd (hv.2.1 _ hs) (by decide)
  · simp only [threadSelectionPlanLegacy, all, hse, and_self, if_true, ite_self]
  obtain ⟨-, hf, hs, ho, rfl⟩ := planLegacy_cases hp
  refine ⟨fun hn => ?_, fun hpr i => ?_⟩
  · obtain ⟨hst, hsa⟩ := ho hn
    have hr : threadSelectionStep s.selection s.inventory = s.selection.stopped := by
      unfold threadSelectionStep resolveSelector at hs ⊢
      split_ifs at hs ⊢ with refused known
      · exact absurd (hv.2.1 _ hs) (by decide)
      · exact hsa
      · exact absurd (hv.2.1 _ hs) (by decide)
    refine ⟨hst, hsa, ?_⟩
    rw [hst, if_pos rfl, if_pos rfl, if_pos hn, hr]
  have hsc : ¬0 < s.selection.resume := fun hn => by
    simp only [if_pos hn] at hpr
    cases hpr
  rw [if_neg hsc]
  cases st with
  | false => simpa using vcont_continue hv hf i
  | true =>
    have hpo := hv.2.1 _ hs
    exact ⟨exists_threadText hpo (hsm _ hs), fun t id =>
      vcont_step hv hf hs id i⟩

/-- `Hc2a`, and then a new inventory without that thread. -/
theorem selection_never_widens_stale :
    let s := startSession.run [.add 0x2a (by decide), .add 0x2b (by decide), .apply 99 [50, 97],
      .resetInventory, .add 0x2b (by decide)]
    s.selection.resume = 0x2a ∧ threadSelectionPlanLegacy s.selection s.inventory true = none :=
  ⟨by decide, ((selection_never_widens _).2.2.1 (by decide) (by decide)).2 true⟩

end VitaDebugger.ThreadSelection
