import VitaDebugger.MemoryTransaction
import VitaDebugger.RelyGuarantee
import VitaDebugger.RestoreRuns

/-! Whole runs of one memory transaction. A preparation followed by an application
writes its span and nothing else, its result tells what the span holds, and an
uncertain one keeps the original bytes until a later restoration succeeds. -/

namespace VitaDebugger.TransactionRuns
open AtomicProgram Prog RelyGuarantee Rules SpanMemory BreakpointPatch MemoryTransaction List
open RestoreRuns (Inside)

section Verification

/-- The answers from `k` on report a full transfer for each chunk from `offset` on. -/
def FullFrom (size offset : ℕ) (answers : ℕ → IoReply) : Prop :=
  ∀ k, offset + verifyChunk * k < size →
    (answers k).count = min (size - (offset + verifyChunk * k)) verifyChunk

theorem fullFrom_step {size o : ℕ} {ans : ℕ → IoReply} (hi : o < size) :
    FullFrom size o ans ↔ (ans 0).count = min (size - o) verifyChunk ∧
        FullFrom size (o + min (size - o) verifyChunk) fun k => ans (k + 1) := by
  constructor
  · intro hf
    refine ⟨by simpa [hi] using hf 0, fun k hw => ?_⟩
    have hwh : min (size - o) verifyChunk = verifyChunk := by omega
    rw [hwh] at hw ⊢
    have hn := hf (k + 1) (by rw [Nat.mul_succ]; omega)
    rwa [Nat.mul_succ, Nat.add_comm (verifyChunk * k), ← Nat.add_assoc] at hn
  rintro ⟨hfi, hl⟩ k hw
  cases k with
  | zero => simpa using hfi
  | succ k =>
    rw [Nat.mul_succ, Nat.add_comm (verifyChunk * k), ← Nat.add_assoc] at hw ⊢
    have hwh : min (size - o) verifyChunk = verifyChunk := by omega
    rw [hwh] at hl
    exact hl k hw

/-- The loop at `offset` accepts exactly the expected bytes under full reads. -/
theorem verifyFrom_run (address : ℕ) (e : Bytes) (mem : Memory) (f offset : ℕ)
    (answers : ℕ → IoReply) (he : e.length ≤ offset + f) :
    (((verifyFrom address e f offset).run answers mem).1 = true ↔
      FullFrom e.length offset answers ∧
        load mem (address + offset) (e.length - offset) = e.drop offset) := by
  -- the invariant of the loop: everything before `offset` has been accepted
  induction f generalizing offset answers with
  | zero =>
    have hb : e.length ≤ offset := he
    have hn : FullFrom e.length offset answers := fun k hw => by omega
    simp [verifyFrom, hn, Nat.sub_eq_zero_of_le hb, drop_eq_nil_of_le hb]
  | succ f ih =>
    by_cases hi : offset < e.length
    · rw [verifyFrom, if_pos hi, fullFrom_step hi]
      have hp : 0 < min (e.length - offset) verifyChunk := by
        simp only [verifyChunk]
        omega
      generalize hce : min (e.length - offset) verifyChunk = c at hp ⊢
      have hsp : e.length - offset = c + (e.length - (offset + c)) := by
        omega
      have hl := ih (offset + c) (fun k => answers (k + 1)) (by omega)
      have hpa : load mem (address + offset) (e.length - offset) = e.drop offset ↔
          load mem (address + offset) c = (e.drop offset).take c ∧
            load mem (address + (offset + c)) (e.length - (offset + c)) =
              e.drop (offset + c) := by
        rw [hsp, load_add, Nat.add_assoc, ← drop_drop]
        nth_rewrite 1 [← take_append_drop c (e.drop offset)]
        refine ⟨fun hs => append_inj hs ?_, fun hbo => by rw [hbo.1, hbo.2]⟩
        simp only [load_length, length_take, length_drop]
        omega
      simp only [ioRead]
      rw [Prog.run_perform_bind, hpa]
      by_cases hf : (answers 0).count = c
      · simp only [hf, ↓reduceIte, true_and]
        by_cases hs : load mem (address + offset) c = (e.drop offset).take c
        · simp [hs, hl]
        · simp [hs]
      · simp [hf]
    have hb : e.length ≤ offset := not_lt.mp hi
    have hn : FullFrom e.length offset answers := fun k hw => by omega
    simp [verifyFrom, hi, hn, Nat.sub_eq_zero_of_le hb, drop_eq_nil_of_le hb]

end Verification

variable {m : Memory} {input : Bytes} {start : ℕ}

section Span
variable {address size : ℕ} {mem : Memory}

/-- Bytes off the span are as they were in `mem`, at every moment. -/
def memoryOnly (address size : ℕ) (mem : Memory) : Rules Unit Memory :=
  Rules.sequential (AgreeOff address size mem) (fun _ _ => True) (fun _ => True)

theorem write_only {Q : ℕ → Memory → Prop} (hf : input.length ≤ size)
    (any : ∀ c m', Q c m') :
    (memoryOnly address size mem).Holds () (ioWrite address input) Q m := by
  refine sequential_perform fun off w => ⟨fun a ho => ?_, trivial, any _ _⟩
  have hb : ¬InSpan address input.length a := fun hi =>
    ho ⟨hi.1, hi.2.trans_le (by omega)⟩
  have hbe := off a ho
  dsimp only
  split
  · rwa [store_outside _ _ _ _ hb]
  · simpa only [hb, ↓reduceIte] using hbe

theorem sync_only {c : ℕ} {Q : ℤ → Memory → Prop} (any : ∀ status, Q status m) :
    (memoryOnly address size mem).Holds () (ioSync start c) Q m :=
  sequential_still fun _ => ⟨rfl, any _⟩

theorem read_only {c : ℕ} {Q : Option Bytes → Memory → Prop} (any : ∀ bs, Q bs m) :
    (memoryOnly address size mem).Holds () (ioRead start c) Q m :=
  sequential_still fun _ => ⟨rfl, any _⟩

theorem verify_only {e : Bytes} {Q : Bool → Memory → Prop} (any : ∀ ok, Q ok m) :
    (memoryOnly address size mem).Holds () (verifyBytes start e) Q m := by
  rw [verifyBytes]
  generalize e.length = fuel
  generalize 0 = of
  induction fuel generalizing of with
  | zero => exact any true
  | succ fuel ih =>
    rw [verifyFrom]
    split
    · rw [holds_bind]
      refine read_only fun bytes => ?_
      rw [holds_ite]
      exact ⟨fun _ => any false, fun _ => ih _⟩
    · exact any true

theorem restoreOriginal_only {org : Bytes} (hf : org.length ≤ size)
    {Q : TransactionResult → Memory → Prop} (any : ∀ r m', Q r m') :
    (memoryOnly address size mem).Holds () (restoreOriginal address org) Q m := by
  simp only [restoreOriginal, holds_bind, holds_pure]
  refine write_only hf fun _ m' => sync_only fun _ => verify_only fun _ => ?_
  exact any _ m'

/-- The same for the transaction's functions. -/
def spanOnly (address size : ℕ) (mem : Memory) : Rules Unit TransactionTarget :=
  Rules.sequential (fun u => AgreeOff address size mem u.mem) (fun _ _ => True) (fun _ => True)

variable {t : TransactionTarget}

theorem onMemory_span {α : Type} {p : Io α} {Q : α → TransactionTarget → Prop}
    (h : (memoryOnly address size mem).Holds () p (fun a m => Q a { t with mem := m }) t.mem) :
    (spanOnly address size mem).Holds () (p.lift transactionMemory) Q t :=
  sequential_lift transactionMemory h

theorem modify_span {f : TransactionTarget → TransactionTarget}
    {Q : Unit → TransactionTarget → Prop}
    (hs : (f t).mem = t.mem) (hp : Q () (f t)) :
    (spanOnly address size mem).Holds () (Prog.modify f : Transact Unit) Q t :=
  sequential_modify fun off => ⟨hs ▸ off, trivial, hp⟩

theorem restore_span (hh : t.transaction.address = address) (hw : t.transaction.size = size) :
    (spanOnly address size mem).Holds () memoryTransactionRestore (fun _ _ => True) t := by
  simp only [memoryTransactionRestore, holds_bind]
  refine sequential_read fun _ => ?_
  split
  · trivial
  next original _ =>
  simp only [holds_ite, holds_bind, hh]
  refine ⟨fun _ => trivial, fun _ => onMemory_span (restoreOriginal_only ?_ fun result m => ?_)⟩
  · rw [length_take, hw]
    exact Nat.min_le_left _ _
  · exact ⟨fun _ => trivial, fun _ => modify_span rfl trivial⟩

theorem apply_span (hp : t.transaction.state = .prepared →
      t.transaction.address = address ∧ t.transaction.size = size) :
    (spanOnly address size mem).Holds () (memoryTransactionApply input) (fun _ _ => True) t := by
  simp only [memoryTransactionApply, holds_bind]
  refine sequential_read fun _ => ?_
  rw [holds_ite]
  refine ⟨fun _ => trivial, fun hc => ?_⟩
  simp only [not_or, not_not] at hc
  obtain ⟨hh, hw⟩ := hp hc.1
  have hr : ∀ m, (spanOnly address size mem).Holds () memoryTransactionRestore
      (fun _ _ => True) { t with mem := m } := fun _ => restore_span hh hw
  simp only [holds_bind, holds_ite, hh]
  refine onMemory_span (write_only (by omega) fun _ m => ⟨fun _ => hr m, fun _ => ?_⟩)
  refine onMemory_span (sync_only fun _ => ⟨fun _ => hr m, fun _ => ?_⟩)
  refine onMemory_span (verify_only fun _ => ⟨fun _ => hr m, fun _ => ?_⟩)
  exact modify_span rfl trivial

theorem prepare_span {Q : TransactionResult → TransactionTarget → Prop}
    (hr : ∀ r, r ≠ .ok → Q r t)
    (he : t.transaction.state = .idle → Q .ok t)
    (hre : ∀ org, Q .ok { t with transaction :=
      { t.transaction with address, size, original := some org, state := .prepared } }) :
    (spanOnly address size mem).Holds () (memoryTransactionPrepare address size) Q t := by
  simp only [memoryTransactionPrepare, holds_bind]
  refine sequential_read fun _ => ?_
  simp only [holds_ite, holds_pure, holds_bind]
  refine ⟨fun _ => hr _ (by simp), fun hc => ⟨fun _ => ?_, fun _ => ?_⟩⟩
  · exact he (by simpa using (not_or.mp hc).1)
  refine onMemory_span (read_only fun bs => ?_)
  cases bs with
  | none => exact hr _ (by simp)
  | some org =>
    simp only [holds_bind, holds_pure]
    exact modify_span rfl (hre org)

end Span

section Retries

/-- Later restorations of one transaction; in between, `others` may move memory. -/
def Retried (others : Memory → Memory → Prop) :
    TransactionTarget → List TransactionResult → TransactionTarget → Prop :=
  RestoreRuns.Retried TransactionTarget.transaction TransactionTarget.mem
    (· = memoryTransactionRestore) others

theorem restore_restores {transaction : Transaction} {original : Bytes}
    (holds : MemoryTransaction.Holds transaction original) (p : Transact TransactionResult)
    (called : p = memoryTransactionRestore) (t : TransactionTarget)
    (same : t.transaction = transaction) :
    RestoreRuns.Restores TransactionTarget.transaction TransactionTarget.mem transaction.address
      transaction.size .writeFailedRestored
      (fun u => load u.mem transaction.address transaction.size = original) p t := by
  subst called same
  apply (restore_spec t holds).mono
  intro result u outcome
  cases outcome with
  | restored mem off bytes => exact ⟨off, fun failed => absurd rfl failed, fun _ => bytes⟩
  | pending mem off => exact ⟨off, fun _ => rfl, nofun⟩

end Retries

def prepareThenApply (address size : ℕ) (input : Bytes) : Transact TransactionResult := do
  let prepared ← memoryTransactionPrepare address size
  if prepared ≠ .ok then pure prepared else memoryTransactionApply input

theorem prepareThenApply_span (address size : ℕ) (input : Bytes) (t : TransactionTarget) :
    (spanOnly address size t.mem).Holds () (prepareThenApply address size input)
      (fun _ _ => True) t := by
  simp only [prepareThenApply, holds_bind, holds_ite, holds_pure]
  apply prepare_span
  · exact fun result hf => ⟨fun _ => trivial, fun ok => absurd hf ok⟩
  · exact fun hi => ⟨fun _ => trivial, fun _ => apply_span fun hp => by simp_all⟩
  · exact fun original => ⟨fun _ => trivial, fun _ => apply_span fun _ => ⟨rfl, rfl⟩⟩

/-- What a preparation followed by an application can leave. -/
inductive WriteOutcome (address size : ℕ) (input : Bytes) (t : TransactionTarget) :
    TransactionResult → TransactionTarget → Prop
  | refused {result : TransactionResult} {u : TransactionTarget}
      (code : result = .invalid ∨ result = .readFailed) (same : u.mem = t.mem) :
      WriteOutcome address size input t result u
  | applied {u : TransactionTarget} (bytes : load u.mem address size = input) :
      WriteOutcome address size input t .ok u
  | restored {u : TransactionTarget} (same : u.mem = t.mem) :
      WriteOutcome address size input t .writeFailedRestored u
  | pending {u : TransactionTarget} (here : u.transaction.address = address)
      (width : u.transaction.size = size)
      (holds : Holds u.transaction (load t.mem address size))
      (off : AgreeOff address size t.mem u.mem) :
      WriteOutcome address size input t .restorePending u

theorem apply_refused {t : TransactionTarget}
    (hc : t.transaction.state ≠ .prepared ∨ input.length ≠ t.transaction.size)
    {Q : TransactionResult → TransactionTarget → Prop} (hp : Q .invalid t) :
    (memoryTransactionApply input).wp Q t := by
  simp only [memoryTransactionApply, wp_bind, wp_read]
  rwa [if_pos hc]

theorem apply_prepared {address size : ℕ} {t : TransactionTarget} (hp : 0 < size)
    (hf : size ≤ t.transaction.capacity) :
    (memoryTransactionApply input).wp (WriteOutcome address size input t) ⟨{ t.transaction with
        address, size, original := some (load t.mem address size), state := .prepared },
        t.mem⟩ := by
  by_cases hw : input.length = size
  · have hh : Holds { t.transaction with
        address, size, original := some (load t.mem address size), state := .prepared }
        (load t.mem address size) := ⟨by simp, rfl, load_length _ _ _, hp, hf⟩
    apply (apply_spec _ hh rfl hw).mono
    intro result u ho
    cases ho with
    | applied mem' off hs => exact .applied hs
    | failed hr =>
      cases hr with
      | restored mem' off hs => exact .restored (off.eq_of_load hs)
      | pending mem' off => exact .pending rfl rfl hh off
  · exact apply_refused (.inr hw) (.refused (.inl rfl) rfl)

theorem prepareThenApply_spec (address size : ℕ) (input : Bytes) (t : TransactionTarget) :
    (prepareThenApply address size input).wp (WriteOutcome address size input t) t := by
  have hr : ∀ r, r = .invalid ∨ r = .readFailed →
      (if r ≠ .ok then pure r else memoryTransactionApply input : Transact _).wp
        (WriteOutcome address size input t) t := by
    rintro r hco
    rw [if_pos (by rcases hco with rfl | rfl <;> simp)]
    exact .refused hco rfl
  simp only [prepareThenApply, memoryTransactionPrepare, wp_bind, wp_read]
  rw [wp_ite]
  refine ⟨fun _ => hr _ (.inl rfl), fun hc => ?_⟩
  simp only [not_or, not_not, not_lt] at hc
  rw [wp_ite]
  refine ⟨fun _ => apply_refused (.inl (by simp [hc.1])) (.refused (.inl rfl) rfl), ?_⟩
  intro hn
  rw [wp_bind]
  apply wp_lift
  apply wp_ioRead
  · exact hr _ (.inr rfl)
  · simp only [wp_bind, wp_modify, wp_pure]
    rw [if_neg (by simp)]
    exact apply_prepared (Nat.pos_of_ne_zero hn) hc.2.2.1

/-- The result of a write tells what memory holds, at every pattern of failed
callbacks; verification is exact, and nothing off the span is ever written. -/
theorem memory_transaction_atomic (address size : ℕ) (input : Bytes) (t : TransactionTarget) :
    (∀ states result u, (prepareThenApply address size input).Path t states result u →
      (∀ m ∈ states, AgreeOff address size t.mem m.mem) ∧
      (result = .ok → load u.mem address size = input) ∧
      (result = .writeFailedRestored → u.mem = t.mem) ∧
      (result = .restorePending → ∀ others results v, Retried others u results v →
        (.writeFailedRestored ∉ results → v.transaction.state ≠ .idle ∧
          v.transaction.address = address ∧ v.transaction.size = size ∧
          v.transaction.original = some (load t.mem address size)) ∧
        (∀ earlier, results = earlier ++ [.writeFailedRestored] → .writeFailedRestored ∉ earlier →
          load v.mem address size = load t.mem address size ∧
          (Inside others address size → v.mem = t.mem))) ∧
      (result = .invalid ∨ result = .readFailed → u.mem = t.mem)) ∧
    (∀ s states result u, memoryTransactionRestore.Path s states result u → ∀ m ∈ states,
      AgreeOff s.transaction.address s.transaction.size s.mem m.mem) ∧
    ∀ start expected answers mem, (((verifyBytes start expected).run answers mem).1 = true ↔
      (∀ k, 64 * k < expected.length → (answers k).count = min (expected.length - 64 * k) 64) ∧
      load mem start expected.length = expected) := by
  refine ⟨fun states result u hp => ?_, fun s states result u hp => ?_,
    fun start expected answers mem => ?_⟩
  · have hsp := sequential_path (prepareThenApply_span address size input t) (.refl _ _ _) hp
    have ho := hp.ends.post (prepareThenApply_spec address size input t)
    refine ⟨hsp.1, ?_⟩
    cases ho with
    | refused hc hs => rcases hc with rfl | rfl <;> simpa using hs
    | applied hb => simpa using hb
    | restored hs => simpa using hs
    | pending hhe hwi hh off =>
      refine ⟨by simp, by simp, fun _ others results v run => ?_, by simp⟩
      constructor
      · intro hn
        rw [(RestoreRuns.Retried.kept run (restore_restores hh) hn).1]
        exact ⟨hh.active, hhe, hwi, hh.captured⟩
      rintro earlier rfl hn
      obtain ⟨hb, hw⟩ := RestoreRuns.Retried.restored run (restore_restores hh) hn
      rw [hhe, hwi] at hb hw
      exact ⟨hb, fun hi => (off.trans (hw hi)).eq_of_load hb⟩
  · exact (sequential_path (restore_span rfl rfl) (.refl _ _ _) hp).1
  · have hwh := verifyFrom_run start expected mem expected.length 0 answers (by simp)
    simpa [FullFrom, verifyChunk, verifyBytes] using hwh

end VitaDebugger.TransactionRuns
