import VitaDebugger.ThreadControl
import Mathlib.Data.List.Forall2

/-! The language and meaning of `vCont` packets. The grammar is stated on its
own and the parser is shown to accept exactly it; the plan is read off the
leftmost action that matches each thread. -/

namespace VitaDebugger.VCont
open RspHex ThreadControl List

/-- `digits` read from left to right in base sixteen. -/
def numeral (digits : List ℕ) : ℕ := digits.foldl (fun n digit => n * 16 + digit) 0

/-- A thread id: `-1`, or one to eight hexadecimal digits that fit `int32_t`. -/
inductive ThreadText : Bytes → ℤ → Prop
  | all : ThreadText [45, 49] threadAll
  | id (text digits : Bytes) (spelled : text.mapM hexValue = some digits)
      (nonempty : text ≠ []) (short : text.length ≤ 8)
      (fits : numeral (digits.map UInt8.toNat) ≤ int32Max) :
      ThreadText text (numeral (digits.map UInt8.toNat))

def kindLetter : ResumeKind → UInt8
  | .continue => 99
  | .step => 115

inductive ActionText : Bytes → VcontAction → Prop
  | bare (kind : ResumeKind) : ActionText [kindLetter kind] ⟨kind, threadAll, false⟩
  | named (kind : ResumeKind) {text : Bytes} {thread : ℤ} (id : ThreadText text thread) :
      ActionText (kindLetter kind :: 58 :: text) ⟨kind, thread, true⟩

/-- `packet` is `vCont;` and one to 65 actions separated by semicolons. -/
def Spells (packet : Bytes) (actions : List VcontAction) : Prop :=
  ∃ texts, packet = vcontHead ++ [59].intercalate texts ∧ texts ≠ [] ∧
    texts.length ≤ vcontMaxActions ∧ Forall₂ ActionText texts actions

def Visible (inventory : ThreadInventory) (action : VcontAction) : Prop :=
  action.hasThread → 0 < action.thread → action.thread ∈ inventory

/-- No id and `-1` match every thread, `0` the first one of the inventory. -/
def Matches (inventory : ThreadInventory) (action : VcontAction) (thread : ℤ) : Prop :=
  action.hasThread = false ∨ action.thread = -1 ∨
    (action.thread = 0 ∧ inventory.head? = some thread) ∨ action.thread = thread

/-- The leftmost action that matches `thread` is a step. -/
def Steps (inventory : ThreadInventory) (actions : List VcontAction) (thread : ℤ) : Prop :=
  ∃ before action after, actions = before ++ action :: after ∧
    (∀ earlier ∈ before, ¬Matches inventory earlier thread) ∧
    Matches inventory action thread ∧ action.kind = .step

structure Admissible (inventory : ThreadInventory) (actions : List VcontAction) : Prop where
  visible : ∀ action ∈ actions, Visible inventory action
  total : ∀ thread ∈ inventory, ∃ action ∈ actions, Matches inventory action thread
  single : ∀ first ∈ inventory, ∀ second ∈ inventory, Steps inventory actions first →
    Steps inventory actions second → first = second

theorem parseDigits_eq (text : Bytes) (p : ℕ) : parseDigits text p = hexLoop uint32Max text p := by
  induction text generalizing p with
  | nil => rfl
  | cons head rest ih =>
    rw [parseDigits, hexLoop]
    cases hexValue head with
    | none => rfl
    | some digit => simp only [ih]

variable {text : Bytes}

theorem rspParseU32Hex_eq (hn : text ≠ []) (hs : text.length ≤ 8) : rspParseU32Hex text =
      (text.mapM hexValue).map fun ds => numeral (ds.map UInt8.toNat) := by
  have hr : (0 + 1) * 16 ^ text.length ≤ uint32Max + 1 := by
    calc (0 + 1) * 16 ^ text.length = 16 ^ text.length := by ring
      _ ≤ 16 ^ 8 := Nat.pow_le_pow_right (by norm_num) hs
      _ = uint32Max + 1 := by norm_num [uint32Max]
  simp only [rspParseU32Hex, hn, not_lt.mpr hs, or_self, ↓reduceIte]
  rw [parseDigits_eq, hexLoop_eq text 0 hr]
  rfl

theorem rspParseThreadId_iff (text : Bytes) (id : ℤ) :
    rspParseThreadId text = some id ↔ ThreadText text id := by
  constructor
  · intro hp
    simp only [rspParseThreadId] at hp
    split_ifs at hp with he all
    · cases hp
      exact all ▸ .all
    have hsh : text.length ≤ 8 := by
      by_contra hlo
      simp [rspParseU32Hex, not_le.mp hlo] at hp
    rw [rspParseU32Hex_eq he hsh] at hp
    cases hs : text.mapM hexValue with
    | none => simp [hs] at hp
    | some ds =>
      simp only [hs, Option.map_some] at hp
      split_ifs at hp with hl
      cases hp
      exact .id text ds hs he hsh (not_lt.mp hl)
  intro hsp
  cases hsp with
  | all => rfl
  | id _ ds hs hn hsh hf =>
    have ho : text ≠ [45, 49] := by
      rintro rfl
      simp [mapM_cons, show hexValue 45 = none from rfl] at hs
    simp only [rspParseThreadId, hn, ho, ↓reduceIte, rspParseU32Hex_eq hn hsh,
      hs, Option.map_some, not_lt.mpr hf]

variable {thread : ℤ}

theorem ThreadText.nonempty (id : ThreadText text thread) : text ≠ [] := by
  cases id with
  | all => simp
  | id _ _ _ hn => exact hn

theorem parseVcontAction_iff (text : Bytes) (a : VcontAction) :
    parseVcontAction text = some a ↔ ActionText text a := by
  constructor
  · intro hp
    cases text with
    | nil => simp [parseVcontAction] at hp
    | cons f rest =>
      have hl : ∃ k, f = kindLetter k := by
        by_cases c : f = 99
        · exact ⟨.continue, c⟩
        by_cases s : f = 115
        · exact ⟨.step, s⟩
        simp [parseVcontAction, c, s] at hp
      obtain ⟨k, rfl⟩ := hl
      have hkr : (if kindLetter k = 99 then some ResumeKind.continue
          else if kindLetter k = 115 then some ResumeKind.step else none) = some k := by
        cases k <;> rfl
      simp only [parseVcontAction, hkr] at hp
      cases rest with
      | nil =>
        cases hp
        exact .bare k
      | cons second text =>
        simp only at hp
        split_ifs at hp with hm
        rw [Option.map_eq_some_iff] at hp
        obtain ⟨thread, id, rfl⟩ := hp
        obtain ⟨-, hc⟩ := not_or.mp hm
        rw [not_not.mp hc]
        exact .named k ((rspParseThreadId_iff text thread).mp id)
  intro hs
  cases hs with
  | bare k => cases k <;> rfl
  | named k id =>
    have hp := (rspParseThreadId_iff _ _).mpr id
    cases k <;> simp [parseVcontAction, kindLetter, id.nonempty, hp]

theorem hexValue_semicolon : hexValue 59 = none := rfl

theorem not_mem_of_mapM {α β : Type} {f : α → Option β} {x : α} (hu : f x = none)
    {xs : List α} {ys : List β} (hm : xs.mapM f = some ys) : x ∉ xs := by
  induction xs generalizing ys with
  | nil => simp
  | cons head rest ih =>
    simp only [mapM_cons, Option.bind_eq_bind, Option.bind_eq_some_iff, Option.pure_def,
      Option.some.injEq] at hm
    obtain ⟨y, hh, tail, hm, -⟩ := hm
    simp only [mem_cons, not_or]
    refine ⟨?_, ih hm⟩
    rintro rfl
    simp [hu] at hh

theorem ActionText.no_semicolon {a : VcontAction} (hs : ActionText text a) : 59 ∉ text := by
  cases hs with
  | bare k => cases k <;> decide
  | named k id =>
    have hl : (59 : UInt8) ≠ kindLetter k := by cases k <;> decide
    have hr : ∀ {text : Bytes} {thread : ℤ}, ThreadText text thread → 59 ∉ text := by
      intro text thread id
      cases id with
      | all => decide
      | id _ digits hsp => exact not_mem_of_mapM hexValue_semicolon hsp
    simp [hl, hr id]

theorem ActionText.nonempty {a : VcontAction} (hs : ActionText text a) : text ≠ [] := by
  cases hs <;> simp

variable {inventory : ThreadInventory}

theorem visible_iff (hv : threadInventoryValid inventory) (a : VcontAction) :
    ¬(a.hasThread ∧ 0 < a.thread ∧ ¬threadInventoryContains inventory a.thread) ↔
      Visible inventory a := by
  simp only [Visible, threadInventoryContains, hv, true_and]
  tauto

/-- What the action loop accepts from `text` with `room` entries left. -/
def Reads (inventory : ThreadInventory) (room : ℕ) (text : Bytes)
    (actions : List VcontAction) : Prop :=
  ∃ texts, text = [59].intercalate texts ∧ texts ≠ [] ∧ texts.length ≤ room ∧
    Forall₂ ActionText texts actions ∧ ∀ action ∈ actions, Visible inventory action

theorem splitAction_append (text : Bytes) :
    (splitAction text).1 ++ (splitAction text).2 = text := by
  induction text with
  | nil => rfl
  | cons c rest ih =>
    by_cases hs : c = 59 <;> simp [splitAction, hs, ih]

theorem splitAction_semicolon {c : UInt8} {next : Bytes}
    (hr : (splitAction text).2 = c :: next) : c = 59 := by
  induction text with
  | nil => simp [splitAction] at hr
  | cons head rest ih =>
    by_cases hs : head = 59
    · simp only [splitAction, hs, ↓reduceIte, cons.injEq] at hr
      exact hr.1.symm
    · simp only [splitAction, hs, ↓reduceIte] at hr
      exact ih hr

theorem splitAction_clean (hc : 59 ∉ text) (r : Bytes)
    (he : r = [] ∨ ∃ next, r = 59 :: next) : splitAction (text ++ r) = (text, r) := by
  induction text with
  | nil => rcases he with rfl | ⟨next, rfl⟩ <;> rfl
  | cons c text ih =>
    simp only [mem_cons, not_or] at hc
    simp [splitAction, Ne.symm hc.1, ih hc.2]

section
variable (valid : threadInventoryValid inventory)
include valid

theorem reads_of_parse {r : ℕ} {actions : List VcontAction}
    (hp : parseVcontActions inventory r text = some actions) :
    Reads inventory r text actions := by
  induction r generalizing text actions with
  | zero => simp [parseVcontActions] at hp
  | succ r ih =>
    have hpa := splitAction_append text
    simp only [parseVcontActions] at hp
    split_ifs at hp with empty
    cases hre : parseVcontAction (splitAction text).1 with
    | none => simp [hre] at hp
    | some a =>
      have hs := (parseVcontAction_iff _ _).mp hre
      simp only [hre] at hp
      split_ifs at hp with hh
      have hv := (visible_iff valid a).mp hh
      cases hr : (splitAction text).2 with
      | nil =>
        simp only [hr, Option.some.injEq] at hp
        subst hp
        refine ⟨[(splitAction text).1], ?_, by simp, by simp, .cons hs .nil, by simpa using hv⟩
        rw [hr, append_nil] at hpa
        simp [intercalate, hpa]
      | cons separator next =>
        have hse := splitAction_semicolon hr
        cases next with
        | nil => simp [hr] at hp
        | cons head tail =>
          simp only [hr, Option.map_eq_some_iff] at hp
          obtain ⟨later, hp, rfl⟩ := hp
          obtain ⟨ts, hj, hn, hc, hsp, hvi⟩ := ih hp
          refine ⟨(splitAction text).1 :: ts, ?_, by simp, by simpa using hc,
            .cons hs hsp, by simpa using ⟨hv, hvi⟩⟩
          obtain ⟨second, rest, rfl⟩ := exists_cons_of_ne_nil hn
          rw [intercalate_cons_cons, ← hj]
          rw [hr, hse] at hpa
          simpa using hpa.symm

theorem parse_of_reads
    {r : ℕ} {actions : List VcontAction} (hr : Reads inventory r text actions) :
    parseVcontActions inventory r text = some actions := by
  induction r generalizing text actions with
  | zero =>
    obtain ⟨ts, -, hn, hc, -⟩ := hr
    simp [hn] at hc
  | succ r ih =>
    obtain ⟨ts, rfl, hn, hc, hsp, hv⟩ := hr
    cases hsp with
    | nil => simp at hn
    | cons hs hsp =>
      rename_i f ac ts actions
      have hre := (parseVcontAction_iff _ _).mpr hs
      have hsh := (visible_iff valid ac).mpr (hv ac (by simp))
      cases hsp with
      | nil =>
        have hw : [59].intercalate [f] = f ++ [] := by simp [intercalate]
        have hsl := splitAction_clean hs.no_semicolon [] (.inl rfl)
        simp only [hw, parseVcontActions, hsl, hs.nonempty, hre, hsh, ↓reduceIte]
      | cons hs' hh' =>
        rename_i s a' ts' acs'
        have hl : parseVcontActions inventory r ([59].intercalate (s :: ts')) =
            some (a' :: acs') :=
          ih ⟨s :: ts', rfl, by simp, by simpa using hc, .cons hs' hh',
            fun a hm => hv a (.tail ac hm)⟩
        have hj : [59].intercalate (f :: s :: ts') =
            f ++ 59 :: [59].intercalate (s :: ts') := by
          simp
        have hsl := splitAction_clean hs.no_semicolon
          (59 :: [59].intercalate (s :: ts')) (.inr ⟨_, rfl⟩)
        have hn' : [59].intercalate (s :: ts') ≠ [] := by
          cases ts' <;> simp [hs'.nonempty]
        obtain ⟨head, tail, hmo⟩ := exists_cons_of_ne_nil hn'
        simp only [hj, parseVcontActions, hsl, hs.nonempty, hre, hsh, ↓reduceIte]
        rw [hmo] at hl ⊢
        simp only [hl, Option.map_some]

theorem parseVcontActions_iff (room : ℕ) (text : Bytes) (actions : List VcontAction) :
    parseVcontActions inventory room text = some actions ↔ Reads inventory room text actions :=
  ⟨reads_of_parse valid, parse_of_reads valid⟩

end

variable {packet : Bytes}

section Plan
variable {actions : List VcontAction}

theorem actionMatches_iff (hp : 0 < thread) (hn : inventory ≠ []) (a : VcontAction) :
    actionMatches a thread (inventory.headD threadAll) ↔ Matches inventory a thread := by
  obtain ⟨first, rest, rfl⟩ := exists_cons_of_ne_nil hn
  simp only [actionMatches, Matches, headD_cons, head?_cons, Option.some.injEq]
  by_cases he : a.hasThread = false ∨ a.thread = -1
  · rw [if_pos he]
    tauto
  rw [if_neg he]
  by_cases hz : a.thread = 0
  · rw [if_pos hz]
    constructor
    · exact fun hs => .inr (.inr (.inl ⟨hz, hs.symm⟩))
    rintro (hb | all | ⟨-, hs⟩ | hs)
    · exact (he (.inl hb)).elim
    · exact (he (.inr all)).elim
    · exact hs.symm
    · omega
  · rw [if_neg hz]
    tauto

/-- The thread's leftmost matching action, read off by the search, is a step. -/
def stepping (actions : List VcontAction) (anyThread thread : ℤ) : Bool :=
  (actions.find? fun action => actionMatches action thread anyThread).any (·.kind = .step)

theorem stepping_iff (hp : 0 < thread) (hn : inventory ≠ []) :
    stepping actions (inventory.headD threadAll) thread ↔ Steps inventory actions thread := by
  simp only [stepping, Option.any_eq_true, decide_eq_true_eq, find?_eq_some_iff_append,
    Steps, Bool.not_eq_true', decide_eq_false_iff_not, actionMatches_iff hp hn]
  constructor
  · rintro ⟨a, ⟨hm, b, af, rfl, he⟩, hk⟩
    exact ⟨b, a, af, rfl, he, hm, hk⟩
  · rintro ⟨b, a, af, rfl, he, hm, hk⟩
    exact ⟨a, ⟨hm, b, af, rfl, he⟩, hk⟩

/-- The loop succeeds exactly when all threads match and at most one steps, and
its accumulators are then the number of steps and the last of them. -/
theorem planThreads_eq (ath : ℤ) (ts : List ℤ) (c : ℕ) (last : ℤ) (low : c ≤ 1) :
    planThreads actions ath ts c last =
      if (∀ thread ∈ ts, ∃ a ∈ actions, actionMatches a thread ath) ∧
          c + (ts.filter (stepping actions ath)).length ≤ 1 then
        some (c + (ts.filter (stepping actions ath)).length,
          (ts.filter (stepping actions ath)).getLastD last)
      else none := by
  induction ts generalizing c last with
  | nil => simp [planThreads, low]
  | cons thread rest ih =>
    rw [planThreads]
    cases hf : actions.find? fun a => actionMatches a thread ath with
    | none =>
      have hu : ¬∃ a ∈ actions, actionMatches a thread ath := by
        simpa using hf
      simp [hu]
    | some a =>
      have matched : ∃ a ∈ actions, actionMatches a thread ath := by
        have some := congrArg Option.isSome hf
        simpa using some
      have step : stepping actions ath thread = decide (a.kind = .step) := by
        simp [stepping, hf]
      by_cases hk : a.kind = .step
      · simp only [hk, ↓reduceIte, forall_mem_cons, matched, true_and, filter_cons, step,
          decide_true, length_cons]
        split_ifs with more hfi hfi
        · omega
        · rfl
        · rw [ih _ _ (by omega), if_pos ⟨hfi.1, by omega⟩, getLastD_cons, Nat.add_right_comm,
            Nat.add_assoc]
        · rw [ih _ _ (by omega), if_neg]
          exact fun hb => hfi ⟨hb.1, by omega⟩
      · simp only [hk, ↓reduceIte, not_lt.mpr low, ih _ _ low, forall_mem_cons, matched,
          true_and, filter_cons, step, decide_false, Bool.false_eq_true]

theorem filter_length_le_one_iff {α : Type} {xs : List α} (hn : xs.Nodup) (p : α → Bool) :
    (xs.filter p).length ≤ 1 ↔ ∀ x ∈ xs, ∀ y ∈ xs, p x → p y → x = y := by
  constructor
  · intro hso x inX y inY px py
    have hf : x ∈ xs.filter p := mem_filter.mpr ⟨inX, px⟩
    have hs : y ∈ xs.filter p := mem_filter.mpr ⟨inY, py⟩
    obtain ⟨i, hi, rfl⟩ := mem_iff_getElem.mp hf
    obtain ⟨j, hj, rfl⟩ := mem_iff_getElem.mp hs
    have hsa : i = j := by omega
    subst hsa
    rfl
  intro hsi
  by_contra hl
  have hd := hn.filter p
  cases hsh : xs.filter p with
  | nil => simp [hsh] at hl
  | cons x rest =>
    cases rest with
    | nil => simp [hsh] at hl
    | cons y rest =>
      have hf : x ∈ xs ∧ p x := mem_filter.mp (by simp [hsh])
      have hs : y ∈ xs ∧ p y := mem_filter.mp (by simp [hsh])
      rw [hsh, hsi x hf.1 y hs.1 hf.2 hs.2] at hd
      simp at hd

theorem spells_iff (hva : threadInventoryValid inventory) :
    Spells packet actions ∧ (∀ a ∈ actions, Visible inventory a) ↔
      ∃ text, text ≠ [] ∧ packet = vcontHead ++ text ∧
        parseVcontActions inventory vcontMaxActions text = some actions := by
  simp only [parseVcontActions_iff hva]
  constructor
  · rintro ⟨⟨ts, rfl, hn, hc, hs⟩, hv⟩
    refine ⟨_, ?_, rfl, ts, rfl, hn, hc, hs, hv⟩
    cases hs with
    | nil => simp at hn
    | cons hsp hr =>
      rename_i ts _
      cases ts <;> simp [hsp.nonempty]
  · rintro ⟨text, -, rfl, ts, rfl, hn, hc, hs, hv⟩
    exact ⟨⟨ts, rfl, hn, hc, hs⟩, hv⟩

theorem rspParseVcont_eq (hv : threadInventoryValid inventory) (hn : inventory ≠ [])
    (hf : text ≠ []) (plan : ResumePlan) : rspParseVcont (vcontHead ++ text) inventory plan =
      vcontResult inventory plan (parseVcontActions inventory vcontMaxActions text) := by
  have hl : ¬(vcontHead ++ text).length ≤ vcontHead.length := by
    have := length_pos_of_ne_nil hf
    simp only [length_append]
    omega
  simp only [rspParseVcont, hv, hn, hl, take_left, drop_left, not_true,
    ne_eq, or_self, ↓reduceIte]

theorem rspParseVcont_reject (hs : ¬∃ text, text ≠ [] ∧ packet = vcontHead ++ text)
    (plan : ResumePlan) : rspParseVcont packet inventory plan = (-1, plan) := by
  have hr : packet.length ≤ vcontHead.length ∨ packet.take vcontHead.length ≠ vcontHead := by
    by_contra ha
    push Not at ha
    refine hs ⟨packet.drop vcontHead.length, ?_, ?_⟩
    · intro he
      have := drop_eq_nil_iff.mp he
      omega
    · conv_lhs => rw [← take_append_drop vcontHead.length packet, ha.2]
  simp only [rspParseVcont, hr, or_true, ↓reduceIte]

theorem admissible_iff (hva : threadInventoryValid inventory) (hn : inventory ≠ [])
    (hv : ∀ a ∈ actions, Visible inventory a) :
    Admissible inventory actions ↔ (∀ thread ∈ inventory, ∃ a ∈ actions,
        actionMatches a thread (inventory.headD threadAll)) ∧
      0 + (inventory.filter (stepping actions (inventory.headD threadAll))).length ≤ 1 := by
  obtain ⟨-, hp, hno⟩ := hva
  rw [Nat.zero_add, filter_length_le_one_iff hno]
  constructor
  · intro ha
    refine ⟨fun thread hm => ?_, fun x inX y inY hf hs => ?_⟩
    · obtain ⟨a, hl, hma⟩ := ha.total thread hm
      exact ⟨a, hl, (actionMatches_iff (hp thread hm) hn a).mpr hma⟩
    · exact ha.single x inX y inY ((stepping_iff (hp x inX) hn).mp hf)
        ((stepping_iff (hp y inY) hn).mp hs)
  rintro ⟨ht, hsi⟩
  refine ⟨hv, fun thread hm => ?_, fun x inX y inY hf hs => ?_⟩
  · obtain ⟨a, hl, hma⟩ := ht thread hm
    exact ⟨a, hl, (actionMatches_iff (hp thread hm) hn a).mp hma⟩
  · exact hsi x inX y inY ((stepping_iff (hp x inX) hn).mpr hf)
      ((stepping_iff (hp y inY) hn).mpr hs)

/-- The plan an admissible list of actions stands for. -/
def planOf (inventory : ThreadInventory) (actions : List VcontAction) : ResumePlan :=
  match inventory.filter (stepping actions (inventory.headD threadAll)) with
  | [] => ⟨.continue, threadAll, .process⟩
  | thread :: _ => ⟨.step, thread, .process⟩

section
variable (v : threadInventoryValid inventory)
include v

section
variable (n : inventory ≠ [])
include n

theorem rspParseVcont_accept
    (hsp : Spells packet actions) (ha : Admissible inventory actions) (plan : ResumePlan) :
    rspParseVcont packet inventory plan = (0, planOf inventory actions) := by
  obtain ⟨text, filled, rfl, hp⟩ := (spells_iff v).mp ⟨hsp, ha.visible⟩
  have fits := (admissible_iff v n ha.visible).mp ha
  rw [rspParseVcont_eq v n filled, hp]
  simp only [vcontResult, planThreads_eq _ _ 0 threadAll (by omega), if_pos fits, planOf]
  have single := fits.2
  cases hsh : inventory.filter (stepping actions (inventory.headD threadAll)) with
  | nil => rfl
  | cons thread rest =>
    rw [hsh] at single
    have hl : rest = [] := by
      cases rest with
      | nil => rfl
      | cons _ _ =>
        simp only [length_cons] at single
        omega
    subst hl
    rfl

theorem rspParseVcont_zero
    {plan : ResumePlan} (ha : rspParseVcont packet inventory plan ≠ (-1, plan)) :
    ∃ actions, Spells packet actions ∧ Admissible inventory actions := by
  by_cases hs : ∃ text, text ≠ [] ∧ packet = vcontHead ++ text
  · obtain ⟨text, filled, rfl⟩ := hs
    rw [rspParseVcont_eq v n filled] at ha
    cases hp : parseVcontActions inventory vcontMaxActions text with
    | none => simp [hp, vcontResult] at ha
    | some actions =>
      obtain ⟨spells, hv⟩ := (spells_iff v).mpr ⟨text, filled, rfl, hp⟩
      refine ⟨actions, spells, (admissible_iff v n hv).mpr ?_⟩
      by_contra hr
      apply ha
      simp only [hp, vcontResult, planThreads_eq _ _ 0 threadAll (by omega), if_neg hr]
  · exact (ha (rspParseVcont_reject hs plan)).elim

theorem planOf_step (ha : Admissible inventory actions) (hm : thread ∈ inventory)
    (hst : Steps inventory actions thread) :
    planOf inventory actions = ⟨.step, thread, .process⟩ := by
  have hp := v.2.1
  have hl : thread ∈ inventory.filter (stepping actions (inventory.headD threadAll)) :=
    mem_filter.mpr ⟨hm, (stepping_iff (hp thread hm) n).mpr hst⟩
  rw [planOf]
  cases hs : inventory.filter (stepping actions (inventory.headD threadAll)) with
  | nil =>
    rw [hs] at hl
    exact (not_mem_nil hl).elim
  | cons o rest =>
    have he : o ∈ inventory ∧ stepping actions (inventory.headD threadAll) o :=
      mem_filter.mp (by rw [hs]; exact .head rest)
    have hsa : o = thread := ha.single o he.1 thread hm
      ((stepping_iff (hp o he.1) n).mp he.2) hst
    rw [hsa]

theorem planOf_continue (hn : ∀ thread ∈ inventory, ¬Steps inventory actions thread) :
    planOf inventory actions = ⟨.continue, threadAll, .process⟩ := by
  have he : inventory.filter (stepping actions (inventory.headD threadAll)) = [] := by
    refine filter_eq_nil_iff.mpr fun thread hm hs => hn thread hm ?_
    exact (stepping_iff (v.2.1 thread hm) n).mp hs
  rw [planOf, he]

/-- `vCont` is accepted exactly on its grammar, and then plans what it says. -/
theorem rspParseVcont_semantics (packet : Bytes) (plan : ResumePlan) :
    ((rspParseVcont packet inventory plan).1 = 0 ↔
        ∃ actions, Spells packet actions ∧ Admissible inventory actions) ∧
      (∀ actions, Spells packet actions → Admissible inventory actions →
        (∀ thread ∈ inventory, Steps inventory actions thread →
          (rspParseVcont packet inventory plan).2 = ⟨.step, thread, .process⟩) ∧
        ((∀ thread ∈ inventory, ¬Steps inventory actions thread) →
          (rspParseVcont packet inventory plan).2 = ⟨.continue, threadAll, .process⟩)) ∧
      ((rspParseVcont packet inventory plan).1 ≠ 0 →
        rspParseVcont packet inventory plan = (-1, plan)) := by
  refine ⟨⟨fun hz => ?_, fun ⟨actions, hs, ha⟩ => ?_⟩, fun actions hs ha => ?_, fun hf => ?_⟩
  · have hac : rspParseVcont packet inventory plan ≠ (-1, plan) := by
      intro hr
      rw [hr] at hz
      simp at hz
    exact rspParseVcont_zero v n hac
  · rw [rspParseVcont_accept v n hs ha]
  · rw [rspParseVcont_accept v n hs ha]
    exact ⟨fun thread hm => planOf_step v n ha hm, planOf_continue v n⟩
  · by_contra hac
    obtain ⟨actions, hs, ha⟩ := rspParseVcont_zero v n hac
    exact hf (by rw [rspParseVcont_accept v n hs ha])

end

end

/-- `vCont;s:2a;c` with threads `0x2a` and `0x2b` steps the first. -/
theorem rspParseVcont_semantics_step :
    (∃ actions, Spells [118, 67, 111, 110, 116, 59, 115, 58, 50, 97, 59, 99] actions ∧
        Admissible [0x2a, 0x2b] actions) ∧
      rspParseVcont [118, 67, 111, 110, 116, 59, 115, 58, 50, 97, 59, 99] [0x2a, 0x2b]
        ⟨.continue, 7, .process⟩ = (0, ⟨.step, 0x2a, .process⟩) :=
  ⟨(rspParseVcont_semantics (by decide) (by decide) _ ⟨.continue, 7, .process⟩).1.mp rfl, rfl⟩

end Plan
end VitaDebugger.VCont
