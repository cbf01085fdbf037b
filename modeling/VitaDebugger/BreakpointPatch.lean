import Mathlib.Algebra.Group.Nat.Defs
import VitaDebugger.Bytes
import VitaDebugger.AtomicProgram
import VitaDebugger.SpanMemory

/-! The caller-owned breakpoint slot of `uvdb_breakpoint_patch.c` and the three
target callbacks it drives. A read that reports the full size is honest and a
write that reports the full size takes effect; every other count leaves any
bytes inside the span of the call. -/

namespace VitaDebugger.BreakpointPatch
open AtomicProgram Prog SpanMemory

abbrev Memory := ℕ → UInt8

def uintptrMax : ℕ := 2 ^ 32 - 1

/-- One answer of the target: a transfer count, the bytes a failed write leaves
behind, and the result of a cache or identity callback. -/
structure IoReply where
  count : ℕ
  bytes : Memory
  status : ℤ

/-- No byte transferred, no error reported. -/
def quiet : IoReply := ⟨0, fun _ => 0, 0⟩

instance : Nonempty IoReply := ⟨quiet⟩

abbrev Io := Prog Memory IoReply

def ioRead (address size : ℕ) : Io (Option Bytes) := Prog.perform fun mem reply =>
    (if reply.count = size then some (load mem address size) else none, mem)

def ioWrite (address : ℕ) (input : Bytes) : Io ℕ := Prog.perform fun mem reply => (reply.count,
    if reply.count = input.length then store mem address input
    else fun a => if InSpan address input.length a then reply.bytes a else mem a)

def ioSync (_address _size : ℕ) : Io ℤ := Prog.ask fun reply => reply.status

theorem wp_ioRead {address size : ℕ} {Q : Option Bytes → Memory → Prop} {mem : Memory}
    (hs : Q none mem) (hf : Q (some (load mem address size)) mem) :
    (ioRead address size).wp Q mem := by
  intro r
  by_cases h : r.count = size <;> simpa [h]

/-- Callers learn nothing from a write's count; only a readback is evidence. -/
theorem wp_ioWrite {address : ℕ} {i : Bytes} {Q : ℕ → Memory → Prop} {mem : Memory}
    (any : ∀ c mem', AgreeOff address i.length mem mem' → Q c mem') :
    (ioWrite address i).wp Q mem := by
  intro r
  apply any
  by_cases h : r.count = i.length
  · simpa [h] using store_agreeOff mem address i
  · intro a ho
    simp [h, ho]

inductive PatchState where
  | empty
  | restorePending
  | installed
  deriving DecidableEq

inductive PatchResult where
  | ok
  | invalidArgument
  | slotInUse
  | originalRead
  | patchWrite
  | patchSync
  | patchReadback
  | patchMismatch
  | restorePending
  | identity
  deriving DecidableEq

def PatchResult.code : PatchResult → ℤ
  | .ok => 0
  | .invalidArgument => -1
  | .slotInUse => -2
  | .originalRead => -3
  | .patchWrite => -4
  | .patchSync => -5
  | .patchReadback => -6
  | .patchMismatch => -7
  | .restorePending => -8
  | .identity => -9

theorem PatchResult.code_neg_iff (r : PatchResult) : r.code < 0 ↔ r ≠ .ok := by
  cases r <;> simp [code]

structure PatchIdentity where
  target : ℕ
  module : ℕ
  deriving DecidableEq

/-- The callback of an owner is an answer of the environment, so only its
presence is data. -/
structure PatchOwner where
  identity : PatchIdentity
  hasMatches : Bool

/-- `original` and `patch` hold the first `size` bytes of the fixed arrays, and
`identity` is present exactly when the slot is identity bound. -/
structure PatchSlot where
  address : ℕ
  original : Bytes
  patch : Bytes
  state : PatchState
  identity : Option PatchIdentity

def PatchSlot.size (slot : PatchSlot) : ℕ := slot.original.length

def PatchSlot.cleared : PatchSlot := ⟨0, [], [], .empty, none⟩

def breakpointPatchRangeIsValid (address size : ℕ) : Prop :=
  address ≠ 0 ∧ size ≠ 0 ∧ size ≤ 4 ∧ address ≤ uintptrMax - (size - 1)

instance (address size : ℕ) : Decidable (breakpointPatchRangeIsValid address size) :=
  inferInstanceAs (Decidable (_ ∧ _))

def breakpointPatchSlotMetadataIsValid (slot : PatchSlot) : Prop :=
  (slot.state = .restorePending ∨ slot.state = .installed) ∧
    breakpointPatchRangeIsValid slot.address slot.size

instance (slot : PatchSlot) : Decidable (breakpointPatchSlotMetadataIsValid slot) :=
  inferInstanceAs (Decidable (_ ∧ _))

def breakpointPatchOwnerIsValid (owner : PatchOwner) : Prop :=
  owner.hasMatches ∧ owner.identity.target ≠ 0 ∧ owner.identity.module ≠ 0

instance (owner : PatchOwner) : Decidable (breakpointPatchOwnerIsValid owner) :=
  inferInstanceAs (Decidable (_ ∧ _))

/-- A slot, which the functions update in place, and the memory it patches. -/
structure SlotTarget where
  slot : PatchSlot
  mem : Memory

abbrev Patch := Prog SlotTarget IoReply

def slotMemory : Prog.Part SlotTarget Memory IoReply IoReply where
  view := (·.mem)
  put t mem := { t with mem }
  answer := id
  view_put _ _ := rfl
  put_put _ _ _ := rfl
  put_view _ := rfl

def breakpointPatchClear : Patch Unit := Prog.modify fun t => { t with slot := .cleared }

/-- `owner->matches(..) == 1` -/
def ownerMatches : Patch Bool := Prog.ask fun reply => decide (reply.status = 1)

def breakpointPatchIdentityMatches (slot : PatchSlot) : Option PatchOwner → Patch Bool
  | none => pure slot.identity.isNone
  | some owner =>
    if breakpointPatchOwnerIsValid owner ∧ slot.identity = some owner.identity then ownerMatches
    else pure false

def setState (state : PatchState) (t : SlotTarget) : SlotTarget :=
  { t with slot := { t.slot with state } }

def breakpointPatchRestoreInternal (owner : Option PatchOwner) : Patch PatchResult := do
  Prog.modify (setState .restorePending)
  let slot ← Prog.read (·.slot)
  let owned ← breakpointPatchIdentityMatches slot owner
  if owned = false then pure .identity
  else
    let written ← (ioWrite slot.address slot.original).lift slotMemory
    let synced ← (ioSync slot.address slot.size).lift slotMemory
    let readback ← (ioRead slot.address slot.size).lift slotMemory
    if written ≠ slot.size ∨ synced ≠ 0 ∨ readback ≠ some slot.original then
      pure .restorePending
    else
      breakpointPatchClear
      pure .ok

def breakpointPatchRequiresRestore (slot : PatchSlot) : Prop := slot.state ≠ .empty

instance (slot : PatchSlot) : Decidable (breakpointPatchRequiresRestore slot) :=
  inferInstanceAs (Decidable (_ ≠ _))

/-- The `rollback` label of the installation. -/
def installRollback (owner : Option PatchOwner) (failure : PatchResult) : Patch PatchResult := do
  let restored ← breakpointPatchRestoreInternal owner
  pure (if restored ≠ .ok then .restorePending else failure)

/-- The part after the recovery metadata is published. -/
def installPublished (owner : Option PatchOwner) (address : ℕ) (patch : Bytes) :
    Patch PatchResult := do
  let written ← (ioWrite address patch).lift slotMemory
  if written ≠ patch.length then installRollback owner .patchWrite
  else
    let synced ← (ioSync address patch.length).lift slotMemory
    if synced ≠ 0 then installRollback owner .patchSync
    else
      match ← (ioRead address patch.length).lift slotMemory with
      | none => installRollback owner .patchReadback
      | some readback =>
        if readback ≠ patch then installRollback owner .patchMismatch
        else
          Prog.modify (setState .installed)
          pure .ok

def ownerAccepts : Option PatchOwner → Patch Bool
  | none => pure true
  | some _ => ownerMatches

/-- Complete recovery metadata, recorded before the first byte can change. -/
def publishedSlot (owner : Option PatchOwner) (address : ℕ) (original patch : Bytes) : PatchSlot :=
  ⟨address, original, patch, .restorePending, owner.map (·.identity)⟩

def breakpointPatchInstallOwned (owner : Option PatchOwner) (address : ℕ) (patch : Bytes) :
    Patch PatchResult := do
  let slot ← Prog.read (·.slot)
  if ¬breakpointPatchRangeIsValid address patch.length ∨
      (∃ o ∈ owner, ¬breakpointPatchOwnerIsValid o) then
    pure .invalidArgument
  else if slot.state ≠ .empty then pure .slotInUse
  else
    let before ← ownerAccepts owner
    if before = false then pure .identity
    else
      match ← (ioRead address patch.length).lift slotMemory with
      | none => pure .originalRead
      | some original =>
        let after ← ownerAccepts owner
        if after = false then pure .identity
        else
          Prog.modify fun t => { t with slot := publishedSlot owner address original patch }
          installPublished owner address patch

def breakpointPatchInstall (address : ℕ) (patch : Bytes) : Patch PatchResult :=
  breakpointPatchInstallOwned none address patch

def breakpointPatchRestoreOwned (owner : Option PatchOwner) : Patch PatchResult := do
  let slot ← Prog.read (·.slot)
  if slot.state = .empty then pure .ok
  else if ¬breakpointPatchSlotMetadataIsValid slot then pure .invalidArgument
  else breakpointPatchRestoreInternal owner

def breakpointPatchRestore : Patch PatchResult := breakpointPatchRestoreOwned none

variable {Q : Bool → SlotTarget → Prop}

section Callbacks
variable {t : SlotTarget}

theorem wp_ownerMatches (any : ∀ b, Q b t) : ownerMatches.wp Q t := fun _ => any _

theorem wp_identityMatches {slot : PatchSlot} {owner : Option PatchOwner} (any : ∀ b, Q b t) :
    (breakpointPatchIdentityMatches slot owner).wp Q t := by
  cases owner with
  | none => exact any _
  | some owner =>
    simp only [breakpointPatchIdentityMatches]
    split
    · exact wp_ownerMatches any
    · exact any false

theorem wp_ownerAccepts {owner : Option PatchOwner}
    (any : ∀ b, Q b t) : (ownerAccepts owner).wp Q t := by
  cases owner with
  | none => exact any true
  | some _ => exact wp_ownerMatches any

theorem wp_slotRead {address size : ℕ} {Q : Option Bytes → SlotTarget → Prop}
    (hs : Q none t) (hf : Q (some (load t.mem address size)) t) :
    ((ioRead address size).lift slotMemory).wp Q t :=
  wp_lift slotMemory (wp_ioRead hs hf)

theorem wp_slotWrite {address : ℕ} {i : Bytes} {Q : ℕ → SlotTarget → Prop}
    (any : ∀ c mem', AgreeOff address i.length t.mem mem' → Q c { t with mem := mem' }) :
    ((ioWrite address i).lift slotMemory).wp Q t :=
  wp_lift slotMemory (wp_ioWrite any)

theorem wp_slotSync {address size : ℕ} {Q : ℤ → SlotTarget → Prop} (any : ∀ status, Q status t) :
    ((ioSync address size).lift slotMemory).wp Q t :=
  wp_lift slotMemory fun _ => any _

end Callbacks

/-- What a restoration can leave: a verified slot is cleared, any other keeps
its recovery data, and bytes outside the slot's span are never touched. -/
inductive RestoreOutcome (t : SlotTarget) : PatchResult → SlotTarget → Prop
  | verified (mem' : Memory) (off : AgreeOff t.slot.address t.slot.size t.mem mem')
      (same : load mem' t.slot.address t.slot.size = t.slot.original) :
      RestoreOutcome t .ok ⟨.cleared, mem'⟩
  | retained (result : PatchResult) (failed : result ≠ .ok) (mem' : Memory)
      (off : AgreeOff t.slot.address t.slot.size t.mem mem') :
      RestoreOutcome t result ⟨{ t.slot with state := .restorePending }, mem'⟩

theorem restoreInternal_spec (owner : Option PatchOwner) (t : SlotTarget) :
    (breakpointPatchRestoreInternal owner).wp (RestoreOutcome t) t := by
  simp only [breakpointPatchRestoreInternal, wp_bind, wp_modify, wp_read]
  apply wp_identityMatches
  intro owned
  rw [wp_ite]
  refine ⟨fun _ => .retained _ (by decide) _ (.refl _ _ _), fun _ => ?_⟩
  simp only [wp_bind]
  apply wp_slotWrite
  intro written mem' off
  apply wp_slotSync
  intro synced
  apply wp_slotRead
  all_goals
    rw [wp_ite]
    refine ⟨fun _ => .retained _ (by decide) _ off, fun hw => ?_⟩
    push Not at hw
    obtain ⟨-, -, hs⟩ := hw
  · simp at hs
  · simp only [breakpointPatchClear, wp_bind, wp_modify, wp_pure]
    exact .verified _ off (Option.some.inj hs)

theorem restoreOwned_spec (owner : Option PatchOwner) (t : SlotTarget)
    (hv : breakpointPatchSlotMetadataIsValid t.slot) :
    (breakpointPatchRestoreOwned owner).wp (RestoreOutcome t) t := by
  have ho : t.slot.state ≠ .empty := by
    rcases hv.1 with hs | hs <;> simp [hs]
  simpa [breakpointPatchRestoreOwned, ho, hv] using restoreInternal_spec owner t

/-- What an installation can leave. Bytes change only under recovery metadata
that holds what memory held before. -/
inductive InstallOutcome (owner : Option PatchOwner) (address : ℕ) (patch : Bytes)
    (t : SlotTarget) : PatchResult → SlotTarget → Prop
  | refused (result : PatchResult) (failed : result ≠ .ok) :
      InstallOutcome owner address patch t result t
  | rolledBack (result : PatchResult) (failed : result ≠ .ok) (free : t.slot.state = .empty) :
      InstallOutcome owner address patch t result ⟨.cleared, t.mem⟩
  | pending (free : t.slot.state = .empty)
      (valid : breakpointPatchRangeIsValid address patch.length) (mem' : Memory)
      (off : AgreeOff address patch.length t.mem mem') :
      InstallOutcome owner address patch t .restorePending
        ⟨publishedSlot owner address (load t.mem address patch.length) patch, mem'⟩
  | installed (free : t.slot.state = .empty)
      (valid : breakpointPatchRangeIsValid address patch.length) (mem' : Memory)
      (off : AgreeOff address patch.length t.mem mem')
      (trapped : load mem' address patch.length = patch) :
      InstallOutcome owner address patch t .ok
        ⟨{ publishedSlot owner address (load t.mem address patch.length) patch with
          state := .installed }, mem'⟩

section Published
variable {t : SlotTarget} {o : Option PatchOwner} {a : ℕ} {p : Bytes}
  {mem' : Memory} (free : t.slot.state = .empty)
  (v : breakpointPatchRangeIsValid a p.length)
include free v

theorem installRollback_spec (f : PatchResult) (hf : f ≠ .ok)
    (off : AgreeOff a p.length t.mem mem') :
    (installRollback o f).wp (InstallOutcome o a p t)
      ⟨publishedSlot o a (load t.mem a p.length) p, mem'⟩ := by
  simp only [installRollback, wp_bind]
  apply (restoreInternal_spec _ _).mono
  intro result u ho
  have hsi : (publishedSlot o a (load t.mem a p.length) p).size =
    p.length := load_length _ _ _
  cases ho with
  | verified _ ho' hs =>
    simp only [hsi] at ho' hs
    rw [(off.trans ho').eq_of_load hs]
    simpa using .rolledBack f hf free
  | retained _ hf' _ ho' =>
    simp only [hsi] at ho'
    simpa [hf'] using .pending free v _ (off.trans ho')

theorem installPublished_spec :
    (installPublished o a p).wp (InstallOutcome o a p t)
      ⟨publishedSlot o a (load t.mem a p.length) p, t.mem⟩ := by
  simp only [installPublished, wp_bind]
  apply wp_slotWrite
  intro written mem' off
  rw [wp_ite]
  refine ⟨fun _ => installRollback_spec free v _ (by decide) off, fun _ => ?_⟩
  rw [wp_bind]
  apply wp_slotSync
  intro synced
  rw [wp_ite]
  refine ⟨fun _ => installRollback_spec free v _ (by decide) off, fun _ => ?_⟩
  rw [wp_bind]
  apply wp_slotRead
  · exact installRollback_spec free v _ (by decide) off
  rw [wp_ite]
  refine ⟨fun _ => installRollback_spec free v _ (by decide) off, fun hs => ?_⟩
  simp only [wp_bind, wp_modify, wp_pure]
  exact .installed free v _ off (not_not.mp hs)

end Published

theorem installOwned_spec (owner : Option PatchOwner) (address : ℕ) (patch : Bytes)
    (t : SlotTarget) :
    (breakpointPatchInstallOwned owner address patch).wp
      (InstallOutcome owner address patch t) t := by
  simp only [breakpointPatchInstallOwned, wp_bind, wp_read]
  rw [wp_ite]
  refine ⟨fun _ => .refused _ (by decide), fun hs => ?_⟩
  have hv := not_not.mp (not_or.mp hs).1
  rw [wp_ite]
  refine ⟨fun _ => .refused _ (by decide), fun ho => ?_⟩
  have hf := not_not.mp ho
  rw [wp_bind]
  apply wp_ownerAccepts
  intro before
  rw [wp_ite]
  refine ⟨fun _ => .refused _ (by decide), fun _ => ?_⟩
  rw [wp_bind]
  apply wp_slotRead
  · exact .refused _ (by decide)
  rw [wp_bind]
  apply wp_ownerAccepts
  intro after
  rw [wp_ite]
  refine ⟨fun _ => .refused _ (by decide), fun _ => ?_⟩
  simp only [wp_bind, wp_modify]
  exact installPublished_spec hf hv

end VitaDebugger.BreakpointPatch
