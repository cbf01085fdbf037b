import VitaDebugger.RspHex
import Mathlib.Data.Int.Notation

/-! Thread inventory, selection and resume plans of `uvdb_thread_control.c`. Ids
are mathematical integers; the only ones the parsers produce fit `int32_t`. -/

namespace VitaDebugger.ThreadControl
open RspHex

def threadInventoryCapacity : ℕ := 64

abbrev threadAny : ℤ := 0

abbrev threadAll : ℤ := -1

abbrev ThreadInventory := List ℤ

def threadInventoryValid (inventory : ThreadInventory) : Prop :=
  inventory.length ≤ threadInventoryCapacity ∧ (∀ id ∈ inventory, 0 < id) ∧ inventory.Nodup

instance (inventory : ThreadInventory) : Decidable (threadInventoryValid inventory) :=
  inferInstanceAs (Decidable (_ ∧ _))

def threadInventoryContains (inventory : ThreadInventory) (id : ℤ) : Prop :=
  threadInventoryValid inventory ∧ 0 < id ∧ id ∈ inventory

instance (inventory : ThreadInventory) (id : ℤ) :
    Decidable (threadInventoryContains inventory id) :=
  inferInstanceAs (Decidable (_ ∧ _))

/-- `none` for the result `-1`. -/
def threadInventoryAdd (inventory : ThreadInventory) (id : ℤ) : Option ThreadInventory :=
  if ¬threadInventoryValid inventory ∨ id ≤ 0 then none
  else if threadInventoryContains inventory id then some inventory
  else if threadInventoryCapacity ≤ inventory.length then none
  else some (inventory ++ [id])

structure ThreadSelection where
  stopped : ℤ
  general : ℤ
  resume : ℤ

inductive ResumeKind where
  | continue
  | step
  deriving DecidableEq

inductive ResumeScope where
  | process
  | stoppedThread
  deriving DecidableEq

structure ResumePlan where
  kind : ResumeKind
  stepThread : ℤ
  scope : ResumeScope
  deriving DecidableEq

def threadSelectionReset : ThreadSelection := ⟨threadAll, threadAny, threadAll⟩

variable (selection : ThreadSelection)

def threadSelectionReconcile (inventory : ThreadInventory) : ThreadSelection :=
  if threadInventoryValid inventory ∧ 0 < selection.stopped ∧
      ¬threadInventoryContains inventory selection.stopped then
    { selection with stopped := threadAll }
  else selection

/-- `inventory` is `none` for a null pointer. -/
def threadSelectionNoteStop (stoppedThread : ℤ)
    (inventory : Option ThreadInventory) : ThreadSelection :=
  let selection :=
    { selection with stopped := if 0 < stoppedThread then stoppedThread else threadAll }
  match inventory with
  | none => selection
  | some inventory => threadSelectionReconcile selection inventory

def threadSelectionNoteResume : ThreadSelection :=
  { selection with stopped := threadAll }

def resolveSelector (selector : ℤ) (selection : ThreadSelection) (inventory : ThreadInventory) :
    ℤ :=
  if ¬threadInventoryValid inventory ∨ inventory = [] ∨ selector < threadAll ∨
      selection.stopped < threadAll then threadAll
  else if 0 < selector then
    if threadInventoryContains inventory selector then selector else threadAll
  else if 0 < selection.stopped ∧ threadInventoryContains inventory selection.stopped then
    selection.stopped
  else inventory.headD threadAll

def threadSelectionGeneral (inventory : ThreadInventory) : ℤ :=
  resolveSelector selection.general selection inventory

def threadSelectionStep (inventory : ThreadInventory) : ℤ :=
  resolveSelector selection.resume selection inventory

/-- `none` for the result `-1`. -/
def threadSelectionPlanLegacy (inventory : ThreadInventory) (stepping : Bool) : Option ResumePlan :=
  if ¬threadInventoryValid inventory ∨ inventory = [] ∨ selection.resume < threadAll then none
  else if 0 < selection.resume ∧ (stepping = false ∨ selection.resume ≠ selection.stopped) then none
  else if stepping ∧ selection.resume = threadAll ∧ 1 < inventory.length then none
  else
    let selected := threadSelectionStep selection inventory
    if selected ≤ 0 then none
    else some {
      kind := if stepping then .step else .continue
      stepThread := if stepping then selected else threadAll
      scope := if 0 < selection.resume then .stoppedThread else .process }

def uint32Max : ℕ := 2 ^ 32 - 1

def int32Max : ℕ := 2 ^ 31 - 1

/-- The digit loop with its accumulator and overflow test. -/
def parseDigits : Bytes → ℕ → Option ℕ
  | [], parsed => some parsed
  | text :: rest, parsed =>
    match hexValue text with
    | none => none
    | some digit =>
      if (uint32Max - digit.toNat) / 16 < parsed then none
      else parseDigits rest (parsed * 16 + digit.toNat)

def rspParseU32Hex (text : Bytes) : Option ℕ :=
  if text = [] ∨ 8 < text.length then none else parseDigits text 0

def rspParseThreadId (text : Bytes) : Option ℤ :=
  if text = [] then none
  else if text = [45, 49] then some threadAll
  else
    match rspParseU32Hex text with
    | none => none
    | some value => if int32Max < value then none else some value

/-- The `Hg` and `Hc` packets; `none` for the result `-1`. -/
def threadSelectionApply (operation : UInt8) (text : Bytes)
    (inventory : ThreadInventory) : Option ThreadSelection :=
  if ¬threadInventoryValid inventory ∨ inventory = [] ∨ (operation ≠ 103 ∧ operation ≠ 99) then none
  else
    match rspParseThreadId text with
    | none => none
    | some id =>
      if 0 < id ∧ ¬threadInventoryContains inventory id then none
      else if operation = 103 then some { selection with general := id }
      else some { selection with resume := id }

structure VcontAction where
  kind : ResumeKind
  thread : ℤ
  hasThread : Bool

def parseVcontAction : Bytes → Option VcontAction
  | [] => none
  | first :: rest =>
    match (if first = 99 then some ResumeKind.continue
      else if first = 115 then some ResumeKind.step else none : Option ResumeKind) with
    | none => none
    | some kind =>
      match rest with
      | [] => some ⟨kind, threadAll, false⟩
      | second :: text =>
        if text = [] ∨ second ≠ 58 then none
        else (rspParseThreadId text).map fun thread => ⟨kind, thread, true⟩

def actionMatches (action : VcontAction) (thread anyThread : ℤ) : Prop :=
  if action.hasThread = false ∨ action.thread = threadAll then True
  else if action.thread = threadAny then thread = anyThread
  else action.thread = thread

instance (action : VcontAction) (thread anyThread : ℤ) :
    Decidable (actionMatches action thread anyThread) :=
  inferInstanceAs (Decidable (ite _ _ _))

def vcontMaxActions : ℕ := threadInventoryCapacity + 1

/-- The inner scan for the next semicolon: the text before it, and the rest. -/
def splitAction : Bytes → Bytes × Bytes
  | [] => ([], [])
  | c :: rest =>
    if c = 59 then ([], c :: rest) else (c :: (splitAction rest).1, (splitAction rest).2)

/-- The action loop; the first argument counts the entries of `actions` left. -/
def parseVcontActions (inventory : ThreadInventory) : ℕ → Bytes → Option (List VcontAction)
  | 0, _ => none
  | room + 1, text =>
    if (splitAction text).1 = [] then none
    else
      match parseVcontAction (splitAction text).1 with
      | none => none
      | some action =>
        if action.hasThread ∧ 0 < action.thread ∧
            ¬threadInventoryContains inventory action.thread then none
        else
          match (splitAction text).2 with
          | [] => some [action]
          | [_] => none
          | _ :: next => (parseVcontActions inventory room next).map (action :: ·)

/-- The inventory loop with its two accumulators. -/
def planThreads (actions : List VcontAction) (anyThread : ℤ) : List ℤ → ℕ → ℤ → Option (ℕ × ℤ)
  | [], stepCount, stepThread => some (stepCount, stepThread)
  | thread :: rest, stepCount, stepThread =>
    match actions.find? fun action => actionMatches action thread anyThread with
    | none => none
    | some action =>
      let (stepCount, stepThread) :=
        if action.kind = .step then (stepCount + 1, thread) else (stepCount, stepThread)
      if 1 < stepCount then none else planThreads actions anyThread rest stepCount stepThread

/-- `vCont;` -/
def vcontHead : Bytes := [118, 67, 111, 110, 116, 59]

/-- The part after the actions are parsed; nothing is written before it succeeds. -/
def vcontResult (inventory : ThreadInventory) (plan : ResumePlan) :
    Option (List VcontAction) → ℤ × ResumePlan
  | none => (-1, plan)
  | some actions =>
    match planThreads actions (inventory.headD threadAll) inventory 0 threadAll with
    | none => (-1, plan)
    | some (stepCount, stepThread) =>
      (0, ⟨if stepCount = 0 then .continue else .step, stepThread, .process⟩)

def rspParseVcont (packet : Bytes) (inventory : ThreadInventory) (plan : ResumePlan) :
    ℤ × ResumePlan :=
  if ¬threadInventoryValid inventory ∨ inventory = [] ∨ packet.length ≤ vcontHead.length ∨
      packet.take vcontHead.length ≠ vcontHead then (-1, plan)
  else
    vcontResult inventory plan
      (parseVcontActions inventory vcontMaxActions (packet.drop vcontHead.length))

def resumePlanValidate (plan : ResumePlan) (exceptionThread : ℤ) (targetStopped
    stopSessionActive stopSessionFailed hasPcOverride : Bool) : Bool :=
  match plan.scope with
  | .process => true
  | .stoppedThread =>
    decide (plan.kind = .step) && !hasPcOverride && decide (0 < plan.stepThread) &&
      decide (plan.stepThread = exceptionThread) && targetStopped && stopSessionActive &&
      !stopSessionFailed

end VitaDebugger.ThreadControl
