import VitaDebugger.BreakpointPatch

/-! The rollback-capable memory write of `uvdb_memory_transaction.c`. A prepared
transaction holds the original bytes of its span until they are restored and
verified or the applied bytes are committed. -/

namespace VitaDebugger.MemoryTransaction
open AtomicProgram Prog SpanMemory BreakpointPatch List

inductive TransactionResult where
  | ok
  | invalid
  | readFailed
  | writeFailedRestored
  | restorePending
  | stateError
  deriving DecidableEq

inductive TransactionState where
  | idle
  | prepared
  | applied
  deriving DecidableEq

/-- `original` is the caller's storage: `none` for a null pointer, otherwise the
bytes captured by the last preparation. -/
structure Transaction where
  address : ℕ
  size : ℕ
  original : Option Bytes
  capacity : ℕ
  state : TransactionState

structure TransactionTarget where
  transaction : Transaction
  mem : Memory

abbrev Transact := Prog TransactionTarget IoReply

def transactionMemory : Prog.Part TransactionTarget Memory IoReply IoReply where
  view := (·.mem)
  put t mem := { t with mem }
  answer := id
  view_put _ _ := rfl
  put_put _ _ _ := rfl
  put_view _ := rfl

def verifyChunk : ℕ := 64

/-- The verification loop at `offset`; `fuel` bounds the chunks still to read. -/
def verifyFrom (address : ℕ) (expected : Bytes) : ℕ → ℕ → Io Bool
  | 0, _ => pure true
  | fuel + 1, offset =>
    if offset < expected.length then do
      let chunk := min (expected.length - offset) verifyChunk
      let observed ← ioRead (address + offset) chunk
      if observed ≠ some ((expected.drop offset).take chunk) then pure false
      else verifyFrom address expected fuel (offset + chunk)
    else pure true

/-- Every chunk holds a byte, so the length bounds their number. -/
def verifyBytes (address : ℕ) (expected : Bytes) : Io Bool :=
  verifyFrom address expected expected.length 0

def restoreOriginal (address : ℕ) (original : Bytes) : Io TransactionResult := do
  let written ← ioWrite address original
  let synced ← ioSync address original.length
  let verified ← verifyBytes address original
  pure (if written = original.length ∧ 0 ≤ synced ∧ verified then .writeFailedRestored
    else .restorePending)

def Transaction.clear (t : Transaction) : Transaction :=
  { t with address := 0, size := 0, state := .idle }

def clearTransaction : Transact Unit :=
  Prog.modify fun t => { t with transaction := t.transaction.clear }

def memoryTransactionInit (storage : Option Bytes) (capacity : ℕ) : Transaction :=
  ⟨0, 0, storage, capacity, .idle⟩

def memoryTransactionPrepare (address size : ℕ) : Transact TransactionResult := do
  let transaction ← Prog.read (·.transaction)
  if transaction.state ≠ .idle ∨ (size ≠ 0 ∧ transaction.original = none) ∨
      transaction.capacity < size ∨ (size ≠ 0 ∧ uintptrMax - (size - 1) < address) then
    pure .invalid
  else if size = 0 then pure .ok
  else
    match ← (ioRead address size).lift transactionMemory with
    | none => pure .readFailed
    | some original =>
      Prog.modify fun t => { t with transaction :=
        { t.transaction with address, size, original := some original, state := .prepared } }
      pure .ok

def memoryTransactionRestore : Transact TransactionResult := do
  let transaction ← Prog.read (·.transaction)
  match transaction.original with
  | none => pure .stateError
  | some original =>
    if transaction.state = .idle ∨ transaction.size = 0 ∨
        transaction.capacity < transaction.size then pure .stateError
    else
      let result ← (restoreOriginal transaction.address
        (original.take transaction.size)).lift transactionMemory
      if result ≠ .writeFailedRestored then pure result
      else
        clearTransaction
        pure result

/-- The two buffers of a caller are the halves of one block, so the overlap test
of the source never fires and is left out. -/
def memoryTransactionApply (input : Bytes) : Transact TransactionResult := do
  let transaction ← Prog.read (·.transaction)
  if transaction.state ≠ .prepared ∨ input.length ≠ transaction.size then pure .invalid
  else
    let written ← (ioWrite transaction.address input).lift transactionMemory
    if written ≠ input.length then memoryTransactionRestore
    else
      let synced ← (ioSync transaction.address input.length).lift transactionMemory
      if synced < 0 then memoryTransactionRestore
      else
        let verified ← (verifyBytes transaction.address input).lift transactionMemory
        if verified = false then memoryTransactionRestore
        else
          Prog.modify fun t => { t with transaction := { t.transaction with state := .applied } }
          pure .ok

def memoryTransactionCommit : Transact TransactionResult := do
  let transaction ← Prog.read (·.transaction)
  if transaction.state ≠ .applied then pure .stateError
  else
    clearTransaction
    pure .ok

def memoryTransactionIsPending (t : Transaction) : Prop := t.state ≠ .idle

instance (t : Transaction) : Decidable (memoryTransactionIsPending t) :=
  inferInstanceAs (Decidable (_ ≠ _))

theorem verifyFrom_spec (a : ℕ) (e : Bytes) (mem : Memory) (f offset : ℕ)
    (he : e.length ≤ offset + f) :
    (verifyFrom a e f offset).wp (fun v mem' => mem' = mem ∧
      (v → load mem (a + offset) (e.length - offset) =
        e.drop offset)) mem := by
  induction f generalizing offset with
  | zero =>
    refine ⟨rfl, fun _ => ?_⟩
    have hb : e.length ≤ offset := he
    simp [Nat.sub_eq_zero_of_le hb, drop_eq_nil_of_le hb]
  | succ f ih =>
    simp only [verifyFrom]
    rw [wp_ite]
    refine ⟨fun hi => ?_, fun hb => ?_⟩
    · have hp : 0 < min (e.length - offset) verifyChunk := by
        simp only [verifyChunk]
        omega
      generalize hce : min (e.length - offset) verifyChunk = c at hp ⊢
      rw [wp_bind]
      apply wp_ioRead
      · simp
      rw [wp_ite]
      refine ⟨fun _ => ⟨rfl, by simp⟩, fun hsa => ?_⟩
      apply (ih (offset + c) (by omega)).mono
      rintro v mem' ⟨rfl, hl⟩
      refine ⟨rfl, fun hs => ?_⟩
      have hh := Option.some.inj (not_not.mp hsa)
      have hsp : e.length - offset = c + (e.length - (offset + c)) := by
        omega
      rw [hsp, load_add, hh, Nat.add_assoc, hl hs, ← drop_drop, take_append_drop]
    · have hb : e.length ≤ offset := not_lt.mp hb
      simp [Nat.sub_eq_zero_of_le hb, drop_eq_nil_of_le hb]

theorem verifyBytes_spec (a : ℕ) (e : Bytes) (mem : Memory) :
    (verifyBytes a e).wp (fun v mem' => mem' = mem ∧
      (v → load mem a e.length = e)) mem := by
  have hw := verifyFrom_spec a e mem e.length 0 (by simp)
  simpa only [verifyBytes, Nat.add_zero, Nat.sub_zero, drop_zero] using hw

theorem restoreOriginal_spec (a : ℕ) (original : Bytes) (mem : Memory) :
    (restoreOriginal a original).wp (fun r m' =>
      AgreeOff a original.length mem m' ∧
      ((r = .writeFailedRestored ∧ load m' a original.length = original) ∨
        r = .restorePending)) mem := by
  simp only [restoreOriginal, wp_bind, wp_pure]
  apply wp_ioWrite
  intro written m' off
  simp only [ioSync, wp_ask]
  intro reply
  apply (verifyBytes_spec a original m').mono
  rintro verified _ ⟨rfl, hs⟩
  refine ⟨off, ?_⟩
  split
  · next hw => exact .inl ⟨rfl, hs hw.2.2⟩
  · exact .inr rfl

/-- A transaction that holds the original bytes `original` of its span. -/
structure Holds (t : Transaction) (original : Bytes) : Prop where
  active : t.state ≠ .idle
  captured : t.original = some original
  length : original.length = t.size
  positive : 0 < t.size
  fits : t.size ≤ t.capacity

inductive RollbackOutcome (t : TransactionTarget) (original : Bytes) :
    TransactionResult → TransactionTarget → Prop
  | restored (mem' : Memory) (off : AgreeOff t.transaction.address t.transaction.size t.mem mem')
      (same : load mem' t.transaction.address t.transaction.size = original) :
      RollbackOutcome t original .writeFailedRestored ⟨t.transaction.clear, mem'⟩
  | pending (mem' : Memory) (off : AgreeOff t.transaction.address t.transaction.size t.mem mem') :
      RollbackOutcome t original .restorePending ⟨t.transaction, mem'⟩

variable {original : Bytes}

theorem RollbackOutcome.from {t u : TransactionTarget} {mem' : Memory} {r : TransactionResult}
    (off : AgreeOff t.transaction.address t.transaction.size t.mem mem')
    (ho : RollbackOutcome ⟨t.transaction, mem'⟩ original r u) :
    RollbackOutcome t original r u := by
  cases ho with
  | restored m'' ho' hb => exact .restored m'' (off.trans ho') hb
  | pending m'' ho' => exact .pending m'' (off.trans ho')

theorem restore_spec (t : TransactionTarget) (hh : Holds t.transaction original) :
    memoryTransactionRestore.wp (RollbackOutcome t original) t := by
  have hc : ¬(t.transaction.state = .idle ∨ t.transaction.size = 0 ∨
      t.transaction.capacity < t.transaction.size) := by
    have := hh.positive
    have := hh.fits
    have := hh.active
    rintro (hi | hz | hb)
    · contradiction
    · omega
    · omega
  have hw : original.take t.transaction.size = original := by
    rw [← hh.length, take_length]
  simp only [memoryTransactionRestore, wp_bind, wp_read, hh.captured, hc, ↓reduceIte, hw]
  apply wp_lift
  apply (restoreOriginal_spec _ _ _).mono
  rintro result mem' ⟨off, hd⟩
  rw [hh.length] at off hd
  rcases hd with ⟨rfl, hs⟩ | rfl
  · simp only [ne_eq, not_true, ↓reduceIte, clearTransaction, wp_bind, wp_modify, wp_pure]
    exact .restored mem' off hs
  · exact .pending mem' off

inductive ApplyOutcome (t : TransactionTarget) (original input : Bytes) :
    TransactionResult → TransactionTarget → Prop
  | applied (mem' : Memory) (off : AgreeOff t.transaction.address t.transaction.size t.mem mem')
      (same : load mem' t.transaction.address t.transaction.size = input) :
      ApplyOutcome t original input .ok ⟨{ t.transaction with state := .applied }, mem'⟩
  | failed {result : TransactionResult} {u : TransactionTarget}
      (rollback : RollbackOutcome t original result u) : ApplyOutcome t original input result u

theorem apply_spec (t : TransactionTarget) {i : Bytes}
    (hh : Holds t.transaction original) (hp : t.transaction.state = .prepared)
    (hs : i.length = t.transaction.size) :
    (memoryTransactionApply i).wp (ApplyOutcome t original i) t := by
  have hr : ∀ m', AgreeOff t.transaction.address t.transaction.size t.mem m' →
      memoryTransactionRestore.wp (ApplyOutcome t original i) ⟨t.transaction, m'⟩ := by
    intro m' off
    apply (restore_spec ⟨t.transaction, m'⟩ hh).mono
    exact fun result u ho => .failed (ho.from off)
  simp only [memoryTransactionApply, wp_bind, wp_read, hp, hs, ne_eq, not_true, or_self, ↓reduceIte]
  apply wp_lift
  apply wp_ioWrite
  intro written m' off
  rw [hs] at off
  rw [wp_ite]
  refine ⟨fun _ => hr m' off, fun _ => ?_⟩
  rw [wp_bind]
  apply wp_lift
  intro reply
  rw [wp_ret, wp_ite]
  refine ⟨fun _ => hr m' off, fun _ => ?_⟩
  rw [wp_bind]
  apply wp_lift
  apply (verifyBytes_spec _ _ _).mono
  rintro verified m' ⟨rfl, hsa⟩
  rw [wp_ite]
  refine ⟨fun _ => hr _ off, fun hsu => ?_⟩
  simp only [wp_bind, wp_modify, wp_pure]
  exact .applied _ off (hs ▸ hsa (by simpa using hsu))

inductive PrepareOutcome (t : TransactionTarget) (address size : ℕ) :
    TransactionResult → TransactionTarget → Prop
  | refused (result : TransactionResult) (failed : result ≠ .ok) :
      PrepareOutcome t address size result t
  | prepared (idle : t.transaction.state = .idle) (fits : size ≤ t.transaction.capacity) :
      PrepareOutcome t address size .ok ⟨{ t.transaction with
        address, size, original := some (load t.mem address size), state := .prepared }, t.mem⟩

theorem prepare_spec (t : TransactionTarget) (a s : ℕ) (hp : 0 < s) :
    (memoryTransactionPrepare a s).wp (PrepareOutcome t a s) t := by
  simp only [memoryTransactionPrepare, wp_bind, wp_read]
  rw [wp_ite]
  refine ⟨fun _ => .refused _ (by decide), fun hc => ?_⟩
  simp only [not_or, not_not, not_lt] at hc
  have hn : s ≠ 0 := by omega
  simp only [hn, ↓reduceIte, wp_bind]
  apply wp_lift
  apply wp_ioRead
  · exact .refused _ (by decide)
  · simp only [wp_bind, wp_modify, wp_pure]
    exact .prepared hc.1 hc.2.2.1

end VitaDebugger.MemoryTransaction
