import VitaDebugger.PmuSession
import VitaDebugger.RelyGuarantee

/-! The restoration obligation of a PMU session, read off the record of backend
calls: it opens with the configure callback and closes with a successful restore
whose following snapshot matches the original. The session stays bound to the
lease of an open obligation in every state, those inside a call included. -/

namespace VitaDebugger.PmuObligation
open AtomicProgram Prog RelyGuarantee Rules PmuSession List Option Nat UInt64

/-- The fields a restoration brings back. -/
@[mk_iff]
structure OwnedFieldsEqual (current original : Snapshot) : Prop where
  count : current.eventCounterCount = original.eventCounterCount
  control : current.rawPmcr &&& ~~~pmcrResetBits = original.rawPmcr &&& ~~~pmcrResetBits
  enables : current.rawPmcntenset &&& implementedCounterMask =
    original.rawPmcntenset &&& implementedCounterMask
  overflows : current.rawPmovsr &&& implementedCounterMask =
    original.rawPmovsr &&& implementedCounterMask
  selector : current.rawPmselr = original.rawPmselr
  cycles : current.rawPmccntr = original.rawPmccntr
  access : current.rawPmuserenr = original.rawPmuserenr
  interrupts : current.rawPmintenset &&& implementedCounterMask =
    original.rawPmintenset &&& implementedCounterMask
  lanes : ∀ i, current.rawPmxevtyper i = original.rawPmxevtyper i ∧
    current.rawPmxevcntr i = original.rawPmxevcntr i

instance (current original : Snapshot) : Decidable (OwnedFieldsEqual current original) :=
  decidable_of_iff _ (ownedFieldsEqual_iff current original).symm

theorem ownedFieldsEqual_of_restored {c o : Snapshot} {configuration : Configuration}
    (he : restoredOwnedFieldsEqual c o configuration = true) :
    OwnedFieldsEqual c o := by
  simp only [restoredOwnedFieldsEqual] at he
  split_ifs at he with _ hl hr
  push Not at hl hr
  obtain ⟨hc, hen, ho, hs, hcy, ha, hi⟩ := hr
  exact ⟨hl.2, hc, hen, ho, hs, hcy, ha, hi, of_decide_eq_true he⟩

/-- `restored` waits for the snapshot that verifies a successful restore. -/
inductive Obligation where
  | settled
  | owed (lease : Lease)
  | restored (lease : Lease)

namespace Obligation

def lease : Obligation → Option Lease
  | .settled => none
  | .owed lease => some lease
  | .restored lease => some lease

def afterRestore (lease used : Lease) (result : ℤ) : Obligation :=
  if used = lease ∧ result = 0 then .restored lease else .owed lease

def next : Obligation → Call → Obligation
  | _, .configure lease _ => .owed lease
  | .owed lease, .restore used result => afterRestore lease used result
  | .restored lease, .restore used result => afterRestore lease used result
  | .restored lease, .snapshot backend core result value =>
    if backend = lease.backend ∧ core = lease.owner.coreId ∧ result = 0 ∧
      OwnedFieldsEqual value lease.original then .settled else .owed lease
  | .restored lease, .nowMs _ _ _ => .owed lease
  | .restored lease, .read _ _ _ => .owed lease
  | obligation, _ => obligation

end Obligation

def obligation (calls : List Call) : Obligation := calls.foldl Obligation.next .settled

def tokens (calls : List Call) : List UInt64 := calls.filterMap fun call => match call with
    | .token value => some value
    | _ => none

@[simp] theorem obligation_log (s : PmuState) (call : Call) :
    obligation (s.log call).calls = (obligation s.calls).next call := by
  simp [obligation, PmuState.log]

/-- Only the configure callback binds a new lease. -/
theorem Obligation.next_lease (o : Obligation) (call : Call) {lease : Lease}
    (hb : (o.next call).lease = some lease) :
    o.lease = some lease ∨ ∃ r, call = .configure lease r := by
  cases call with
  | configure used r =>
    obtain rfl : used = lease := Option.some.inj hb
    exact .inr ⟨r, rfl⟩
  | restore used r =>
    cases o with
    | settled => exact .inl hb
    | owed held | restored held =>
      simp only [next, afterRestore] at hb
      split_ifs at hb
      · exact .inl hb
      · exact .inl hb
  | snapshot bc core r v =>
    cases o with
    | settled | owed held => exact .inl hb
    | restored held =>
      simp only [next] at hb
      split_ifs at hb
      · exact nomatch hb
      · exact .inl hb
  | nowMs bc r v => cases o <;> exact .inl hb
  | read used r values => cases o <;> exact .inl hb
  | token v => cases o <;> exact .inl hb

theorem Obligation.discharged {o : Obligation} {l : Lease} {v : Snapshot}
    (hh : ∀ lease, o.lease = some lease → l = lease)
    (he : OwnedFieldsEqual v l.original) :
    ((o.next (.restore l 0)).next
      (.snapshot l.backend l.owner.coreId 0 v)).lease = none := by
  cases o with
  | settled => rfl
  | owed lease | restored lease =>
    obtain rfl := hh lease rfl
    simp [next, afterRestore, he, Obligation.lease]

/-- The tokens taken so far are 1, 2, 3, ... until the counter wraps. -/
structure TokensCounted (s : PmuState) : Prop where
  taken : (tokens s.calls).length < 2 ^ 64 → tokens s.calls =
    (List.range (tokens s.calls).length).map fun k => UInt64.ofNat (k + 1)
  next : (tokens s.calls).length < 2 ^ 64 - 1 →
    s.session.nextLeaseToken = UInt64.ofNat ((tokens s.calls).length + 1)

/-- The invariant of every state, between calls and inside them. -/
structure Kept (s : PmuState) : Prop where
  cookie : s.session.initializationCookie = sessionCookie
  bound : ∀ lease, (obligation s.calls).lease = some lease →
    s.session.state ≠ .empty ∧ s.session.lease = lease
  counted : TokensCounted s

variable {s : PmuState}

theorem Kept.log (hk : Kept s) {call : Call} (hbi : ∀ l r, call = .configure l r →
      s.session.state ≠ .empty ∧ s.session.lease = l)
    (hs : tokens (s.log call).calls = tokens s.calls) : Kept (s.log call) where
  cookie := hk.cookie
  bound l bound := by
    rw [obligation_log] at bound
    rcases Obligation.next_lease _ _ bound with hbe | ⟨r, hc⟩
    · exact hk.bound l hbe
    · exact hbi l r hc
  counted := ⟨hs ▸ hk.counted.taken, hs ▸ hk.counted.next⟩

theorem Kept.onSession (hk : Kept s) {session : Session}
    (hc : session.initializationCookie = s.session.initializationCookie)
    (hn : session.nextLeaseToken = s.session.nextLeaseToken)
    (hb : ∀ l, (obligation s.calls).lease = some l →
      session.state ≠ .empty ∧ session.lease = l) : Kept { s with session } where
  cookie := hc.trans hk.cookie
  bound := hb
  counted := ⟨hk.counted.taken, fun few => hn.trans (hk.counted.next few)⟩

theorem ofNat_ne_zero {n : ℕ} (hp : 0 < n) (hs : n < 2 ^ 64) : UInt64.ofNat n ≠ 0 := by
  intro hz
  have hv := congrArg UInt64.toNat hz
  simp only [UInt64.toNat_ofNat', UInt64.toNat_zero, mod_eq_of_lt hs] at hv
  omega

theorem Kept.clearLease (hk : Kept s) (hc : (obligation s.calls).lease = none) :
    Kept { s with session := clearLease s.session } where
  cookie := hk.cookie
  bound lease bound := by simp [hc] at bound
  counted := by
    refine ⟨hk.counted.taken, fun (few : (tokens s.calls).length < 2 ^ 64 - 1) => ?_⟩
    have next := hk.counted.next few
    have hp : s.session.nextLeaseToken ≠ 0 :=
      next ▸ ofNat_ne_zero (succ_pos _) (by omega)
    simpa [PmuSession.clearLease, hp] using next

theorem Kept.takeToken (hk : Kept s) (hc : (obligation s.calls).lease = none) :
    Kept ⟨{ s.session with
        nextLeaseToken := if freshToken s.session + 1 = 0 then 1 else freshToken s.session + 1
        leaseToken := freshToken s.session }, s.calls ++ [.token (freshToken s.session)]⟩ := by
  have hg : tokens (s.calls ++ [.token (freshToken s.session)]) =
      tokens s.calls ++ [freshToken s.session] := by simp [tokens]
  have hf (few : (tokens s.calls).length < 2 ^ 64 - 1) :
      freshToken s.session = UInt64.ofNat ((tokens s.calls).length + 1) := by
    have hn := hk.counted.next few
    have hp : s.session.nextLeaseToken ≠ 0 := hn ▸ ofNat_ne_zero (succ_pos _) (by omega)
    simpa [freshToken, hp] using hn
  refine ⟨hk.cookie, fun l hb => ?_, ?_, ?_⟩
  · have hh : ((obligation s.calls).next (.token (freshToken s.session))).lease = some l := by
      simpa [obligation] using hb
    simpa [hc] using Obligation.next_lease _ _ hh
  · simp only [hg, length_append, length_singleton]
    intro few
    rw [range_succ, map_append, ← hk.counted.taken (by omega), hf (by omega)]
    rfl
  simp only [hg, length_append, length_singleton]
  intro few
  have hfo : freshToken s.session + 1 = UInt64.ofNat ((tokens s.calls).length + 1 + 1) := by
    rw [hf (by omega), ofNat_add ((tokens s.calls).length + 1) 1]
    rfl
  rw [hfo, if_neg (ofNat_ne_zero (succ_pos _) (by omega))]

/-- The owner of the session serialises its calls. -/
abbrev pmuRules : Rules Unit PmuState := .sequential Kept (fun _ _ => True) fun _ => True

variable (owner : Option SessionOwner)

section Calls

theorem holds_callNowMs {b : Backend} {Q : ℤ × UInt64 → PmuState → Prop}
    (h : ∀ r time, Q (r, time) (s.log (.nowMs b r time))) :
    pmuRules.Holds () (callNowMs b) Q s :=
  sequential_perform fun hk w =>
    ⟨hk.log (by simp) (by simp [tokens, PmuState.log]), trivial, h w.result w.time⟩

theorem holds_callSnapshot {b : Backend} {core : UInt32} {Q : ℤ × Snapshot → PmuState → Prop}
    (h : ∀ r v, Q (r, v) (s.log (.snapshot b core r v))) :
    pmuRules.Holds () (callSnapshot b core) Q s :=
  sequential_perform fun hk w =>
    ⟨hk.log (by simp) (by simp [tokens, PmuState.log]), trivial, h w.result w.snapshot⟩

theorem holds_callRestore {Q : ℤ → PmuState → Prop}
    (h : ∀ r, Q r (s.log (.restore s.session.lease r))) :
    pmuRules.Holds () callRestore Q s :=
  sequential_perform fun hk w =>
    ⟨hk.log (by simp) (by simp [tokens, PmuState.log]), trivial, h w.result⟩

theorem holds_callConfigure {Q : ℤ → PmuState → Prop} (ho : s.session.state ≠ .empty)
    (h : ∀ r, Q r (s.log (.configure s.session.lease r))) :
    pmuRules.Holds () callConfigure Q s := by
  refine sequential_perform fun hk w => ⟨hk.log ?_ ?_, trivial, h w.result⟩
  · rintro lease r hc
    obtain ⟨rfl, -⟩ := Call.configure.inj hc
    exact ⟨ho, rfl⟩
  · simp [tokens, PmuState.log]

theorem holds_noteBackendError (e : ℤ) {Q : Unit → PmuState → Prop}
    (h : Q () { s with session := { s.session with lastBackendError := e } }) :
    pmuRules.Holds () (noteBackendError e) Q s :=
  sequential_modify fun hk => ⟨hk.onSession rfl rfl hk.bound, trivial, h⟩

theorem holds_setState {state : SessionState} (ho : state ≠ .empty)
    {Q : Unit → PmuState → Prop}
    (h : Kept s → Q () { s with session := { s.session with state } }) :
    pmuRules.Holds () (onSession fun session => { session with state }) Q s :=
  sequential_modify fun hk =>
    ⟨hk.onSession rfl rfl fun l hb => ⟨ho, (hk.bound l hb).2⟩, trivial, h hk⟩

theorem restoreExact_always : pmuRules.Always () restoreExact := by
  intro s
  simp only [restoreExact, holds_bind]
  refine holds_setState (by simp) fun hk => sequential_read fun _ => ?_
  refine holds_callRestore fun result => ?_
  rw [holds_ite]
  refine ⟨fun _ => ?_, fun hr => ?_⟩
  · rw [holds_bind]
    exact holds_noteBackendError _ trivial
  rw [holds_bind]
  refine holds_callSnapshot fun verdict value => ?_
  rw [holds_ite, holds_ite]
  refine ⟨fun _ => ?_, fun ht => ⟨fun _ => ?_, fun he => ?_⟩⟩
  · rw [holds_bind]
    exact holds_noteBackendError _ trivial
  · rw [holds_bind]
    exact holds_noteBackendError _ trivial
  rw [holds_bind]
  obtain rfl := not_not.mp hr
  obtain rfl := not_not.mp ht
  refine sequential_modify fun hv => ⟨hv.clearLease ?_, trivial, trivial⟩
  rw [obligation_log, obligation_log]
  exact Obligation.discharged (fun l hb => (hk.bound l hb).2)
    (ownedFieldsEqual_of_restored (Bool.not_eq_false _ ▸ he))

theorem restoreAfter_always (e : ℤ) : pmuRules.Always () (restoreAfter e) :=
  restoreExact_always.bind fun _ => .pure _

theorem noteBackendError_always (e : ℤ) : pmuRules.Always () (noteBackendError e) :=
  fun _ => holds_noteBackendError e trivial

theorem read_always {α : Type} (f : PmuState → α) :
    pmuRules.Always () (Prog.read f : Pmu α) := fun _ => sequential_read fun _ => trivial

theorem abandonAcquire_always (e : ℤ) : pmuRules.Always () (abandonAcquire e) :=
  (read_always _).bind fun _ => restoreExact_always.bind fun _ => .pure _

theorem configureLease_holds (startMs : UInt64) (ho : s.session.state ≠ .empty) :
    pmuRules.Holds () (configureLease startMs) (fun _ _ => True) s := by
  have hf (n e : ℤ) : pmuRules.Always () (do
      noteBackendError n; abandonAcquire e) :=
    (noteBackendError_always n).bind fun _ => abandonAcquire_always e
  have hs : pmuRules.Always () (do
      onSession fun ss => { ss with state := .active }
      let tk ← Prog.read (·.session.leaseToken)
      pure ((0 : ℤ), some tk) : Pmu (ℤ × Option UInt64)) :=
    Always.bind (fun _ => holds_setState (by simp) fun _ => trivial) fun _ =>
      (read_always _).bind fun _ => .pure _
  rw [configureLease, holds_bind]
  refine holds_callConfigure ho fun result => ?_
  refine Always.ite (hf _ _) ?_ _
  refine (read_always _).bind fun ss => ?_
  refine Always.bind (fun _ => holds_callNowMs fun _ _ => trivial) fun _ => ?_
  exact .ite (hf _ _) (.ite (hf _ _) hs)

theorem closed_of_empty (hk : Kept s) (he : s.session.state = .empty) :
    (obligation s.calls).lease = none :=
  eq_none_iff_forall_ne_some.mpr fun l hb => (hk.bound l hb).1 he

theorem acquireEmpty_holds (owner : SessionOwner) (request : SessionRequest) (backend : Backend)
    (he : s.session.state = .empty) :
    pmuRules.Holds () (acquireEmpty owner request backend) (fun _ _ => True) s := by
  rw [acquireEmpty, holds_bind]
  refine holds_callNowMs fun r sm => ?_
  rw [holds_ite]
  refine ⟨fun _ => trivial, fun _ => ?_⟩
  rw [holds_bind]
  refine holds_callSnapshot fun r original => ?_
  rw [holds_ite, holds_ite]
  refine ⟨fun _ => trivial, fun _ => ⟨fun _ => trivial, fun _ => ?_⟩⟩
  split
  · exact trivial
  rw [holds_bind]
  refine holds_callNowMs fun r beforeConfigureMs => ?_
  rw [holds_ite, holds_ite, holds_ite]
  refine ⟨fun _ => trivial, fun _ => ⟨fun _ => trivial, fun _ => ⟨fun _ => trivial, fun _ => ?_⟩⟩⟩
  simp only [holds_bind]
  -- the session is still empty here, so nothing is owed while the lease is filled in
  refine sequential_modify fun hk => ?_
  have hc := closed_of_empty hk he
  refine ⟨hk.onSession rfl rfl fun lease hb => absurd (hc.symm.trans hb) (by simp),
    trivial, ?_⟩
  refine sequential_modify fun hk => ⟨hk.takeToken hc, trivial, ?_⟩
  exact holds_setState (by simp) fun _ => configureLease_holds sm (by simp)

theorem acquire_always (r : Option SessionRequest) (backend : Option Backend) (storage : Bool) :
    pmuRules.Always () (vdPmuSessionAcquire owner r backend storage) := by
  intro s
  rw [vdPmuSessionAcquire, holds_bind]
  refine sequential_read fun _ => ?_
  split
  · rw [holds_ite, holds_ite, holds_ite]
    refine ⟨fun _ => trivial, fun _ => ⟨fun _ => trivial, fun _ => ⟨fun _ => trivial, ?_⟩⟩⟩
    exact fun he => acquireEmpty_holds _ _ _ (not_not.mp he)
  · exact trivial

theorem readActive_always (session : Session) : pmuRules.Always () (readActive session) := by
  have hf (e : ℤ) : pmuRules.Always () (readFails e) :=
    (restoreAfter_always e).bind fun _ => .pure _
  have hn (e : ℤ) : pmuRules.Always () (do noteBackendError e; readFails e) :=
    (noteBackendError_always e).bind fun _ => hf e
  refine Always.bind (fun _ => holds_callNowMs fun _ _ => trivial) fun _ => ?_
  refine .ite (hn _) (.ite (hf _) (.ite (hf _) ?_))
  refine Always.bind (fun _ => sequential_perform fun hk w =>
    ⟨hk.log (by simp) (by simp [tokens, PmuState.log]), trivial, trivial⟩) fun _ => ?_
  refine .ite (hn _) ?_
  refine Always.bind (fun _ => holds_callNowMs fun _ _ => trivial) fun _ => ?_
  exact .ite (hn _) (.ite (hf _) (.ite (hf _) (.pure _)))

theorem watchdog_always : pmuRules.Always () vdPmuSessionWatchdog := by
  refine (read_always _).bind fun session => ?_
  refine .ite (.pure _) (.ite (.pure _) ?_)
  refine .ite (restoreAfter_always _) (.ite (.pure _) ?_)
  refine Always.bind (fun _ => holds_callNowMs fun _ _ => trivial) fun _ => ?_
  refine .ite ?_ (.ite (restoreAfter_always _) ?_)
  · exact (noteBackendError_always _).bind fun _ => restoreAfter_always _
  · exact .ite (.pure _) (restoreAfter_always _)

theorem sessionRead_always (lto : UInt64) (storage : Bool) :
    pmuRules.Always () (vdPmuSessionRead owner lto storage) := by
  refine .ite (.pure _) ?_
  refine (read_always _).bind fun ss => ?_
  exact .ite (.pure _) (.ite (.pure _) (.ite (.pure _) (readActive_always ss)))

theorem sessionRestore_always (lto : UInt64) :
    pmuRules.Always () (vdPmuSessionRestore owner lto) := by
  refine (read_always _).bind fun session => ?_
  exact .ite (.pure _) restoreExact_always

theorem program_always (call : PmuCall) : pmuRules.Always () call.program := by
  cases call with
  | init =>
    refine fun s => sequential_modify fun hk => ⟨?_, trivial, trivial⟩
    simpa [hk.cookie] using hk
  | acquire owner r bc st =>
    exact (acquire_always owner r bc st).bind fun _ =>
      .pure _
  | read owner lto st =>
    exact (sessionRead_always owner lto st).bind fun _ => .pure _
  | restore owner lto =>
    exact (sessionRestore_always owner lto).bind fun _ => .pure _
  | watchdog => exact watchdog_always.bind fun _ => .pure _

end Calls

/-- A session just initialised, with no call recorded. -/
def booted : PmuState :=
  ⟨{ zeroSession with initializationCookie := sessionCookie, nextLeaseToken := 1 }, []⟩

theorem kept_booted : Kept booted :=
  ⟨rfl, fun l hb => (some_ne_none l hb.symm).elim, fun _ => rfl, fun _ => rfl⟩

/-- The states of any sequence of calls, with those inside a call. -/
abbrev PmuRun : Config Unit PmuState PmuReply → Prop :=
  Run (fun _ _ p => ∃ call : PmuCall, p = call.program) booted

theorem pmuRun_kept {c : Config Unit PmuState PmuReply} (run : PmuRun c) : Kept c.shared := by
  have hs : Safe pmuRules c := by
    refine run.safe ?_ (fun _ => trivial) kept_booted fun _ => trivial
    rintro _ s _ ⟨call, rfl⟩ - -
    exact program_always call s
  exact hs.inv

variable {t : PmuState} {b : List Call}

section Outcomes

/-- The restore callback was called for the lease held at `s`. -/
def RestoreCalled (s t : PmuState) : Prop :=
  ∃ new, t.calls = s.calls ++ new ∧ ∃ result, Call.restore s.session.lease result ∈ new

theorem restoreExact_calls (s : PmuState) :
    restoreExact.wp (fun r t => r ≤ 0 ∧ RestoreCalled s t) s := by
  simp only [restoreExact, onSession, noteBackendError, callRestore, callSnapshot, wp_bind,
    wp_modify, wp_read, wp_perform, wp_ite, wp_pure]
  have hc {t : PmuState} (r : ℤ) (rest : List Call)
      (hca : t.calls = s.calls ++ .restore s.session.lease r :: rest) : RestoreCalled s t :=
    ⟨_, hca, r, mem_cons_self⟩
  refine fun f => ⟨fun _ => ⟨by decide, hc _ [] rfl⟩, fun _ sc => ?_⟩
  have hb : ∀ ss : Session, RestoreCalled s ⟨ss, s.calls ++
      [.restore s.session.lease f.result] ++ [.snapshot s.session.lease.backend
        s.session.lease.owner.coreId sc.result sc.snapshot]⟩ :=
    fun _ => hc _ _ (append_assoc _ _ _)
  refine ⟨fun _ => ⟨by decide, hb _⟩, fun _ => ⟨fun _ => ⟨by decide, hb _⟩, fun _ => ?_⟩⟩
  exact ⟨le_refl 0, hb _⟩

theorem RestoreCalled.after {u : PmuState} (hca : t.calls = s.calls ++ b)
    (hl : t.session.lease = s.session.lease) (hc : RestoreCalled t u) :
    RestoreCalled s u := by
  obtain ⟨new, he, r, hm⟩ := hc
  refine ⟨b ++ new, ?_, r, mem_append_right b (hl ▸ hm)⟩
  rw [he, hca, append_assoc]

/-- A failing read ends with an error after it called the restore callback. -/
theorem readFails_calls {e : ℤ} (hca : t.calls = s.calls ++ b)
    (hl : t.session.lease = s.session.lease) (hf : e ≠ 0) :
    (readFails e).wp (fun r u => r.1 ≠ 0 ∧ RestoreCalled s u) t := by
  simp only [readFails, restoreAfter, wp_bind, wp_pure]
  apply (restoreExact_calls t).mono
  rintro result u ⟨hn, hc⟩
  refine ⟨?_, hc.after hca hl⟩
  split
  · omega
  · exact hf

theorem backendFailure_ne_zero (r : ℤ) : backendFailure r ≠ 0 := by
  simp only [backendFailure]
  split
  · omega
  · decide

theorem noted_readFails_calls (result : ℤ) (hc : t.calls = s.calls ++ b)
    (hl : t.session.lease = s.session.lease) : (noteBackendError (backendFailure result)).wp
      (fun _ => (readFails (backendFailure result)).wp
        (fun r u => r.1 ≠ 0 ∧ RestoreCalled s u)) t := by
  simp only [noteBackendError, onSession, wp_modify]
  exact readFails_calls hc hl (backendFailure_ne_zero result)

/-- The clock samples around a successful read of the counters. -/
def SampledInLease (s t : PmuState) : Prop :=
  ∃ first values second, t.calls = s.calls ++ [.nowMs s.session.lease.backend 0 first,
      .read s.session.lease 0 values, .nowMs s.session.lease.backend 0 second] ∧
    s.session.acquiredMs ≤ first ∧ first ≤ second ∧ second < s.session.deadlineMs

theorem readActive_outcome (s : PmuState) : (readActive s.session).wp (fun r t =>
    (r.1 = 0 ∧ SampledInLease s t) ∨ (r.1 ≠ 0 ∧ RestoreCalled s t)) s := by
  have hf {p : Pmu (ℤ × Option Reading)} {t : PmuState}
      (h : p.wp (fun r u => r.1 ≠ 0 ∧ RestoreCalled s u) t) : p.wp (fun r t =>
        (r.1 = 0 ∧ SampledInLease s t) ∨ (r.1 ≠ 0 ∧ RestoreCalled s t)) t :=
    h.mono fun _ _ => .inr
  simp only [readActive, callNowMs, callRead, wp_bind, wp_perform]
  intro f
  simp only [wp_ite, wp_bind, wp_perform]
  refine ⟨fun _ => ?_, fun hcl => ⟨fun _ => ?_, fun ha => ⟨fun _ => ?_, fun _ => ?_⟩⟩⟩
  · exact wp.mono (noted_readFails_calls _ rfl rfl) fun _ _ => hf
  · exact hf (readFails_calls rfl rfl (by decide))
  · exact hf (readFails_calls rfl rfl (by decide))
  intro vs
  simp only [PmuState.log]
  have he (last : Call) : s.calls ++ [.nowMs s.session.lease.backend f.result f.time] ++
      [.read s.session.lease vs.result vs.values] ++ [last] =
      s.calls ++ [.nowMs s.session.lease.backend f.result f.time,
        .read s.session.lease vs.result vs.values, last] := by simp
  refine ⟨fun _ => ?_, fun hc sc => ⟨fun _ => ?_, fun hc' => ⟨fun _ => ?_, fun ho =>
    ⟨fun _ => ?_, fun hi => ?_⟩⟩⟩⟩
  · exact wp.mono (noted_readFails_calls _ (append_assoc _ _ _) rfl) fun _ _ => hf
  · exact wp.mono (noted_readFails_calls _ (he _) rfl) fun _ _ => hf
  · exact hf (readFails_calls (he _) rfl (by decide))
  · exact hf (readFails_calls (he _) rfl (by decide))
  refine .inl ⟨rfl, f.time, vs.values, sc.time, ?_, ?_, ?_, ?_⟩
  · simp [not_not.mp hcl, not_not.mp hc, not_not.mp hc']
  · exact UInt64.not_lt.mp ha
  · exact UInt64.not_lt.mp (not_or.mp ho).1
  · exact UInt64.not_le.mp hi

theorem read_success (s : PmuState) (owner : Option SessionOwner) (lto : UInt64)
    (storage : Bool) : (vdPmuSessionRead owner lto storage).wp
      (fun r t => r.1 = 0 → SampledInLease s t) s := by
  simp only [vdPmuSessionRead, wp_ite, wp_bind, wp_read, wp_pure]
  refine ⟨fun _ hz => ?_, fun _ => ⟨fun hn hz => ?_, fun _ => ⟨fun _ hz => ?_, fun _ =>
    ⟨fun _ hz => ?_, fun _ => ?_⟩⟩⟩⟩
  · exact absurd hz (by decide)
  · exact absurd hz hn.ne
  · exact absurd hz (by decide)
  · exact absurd hz (by decide)
  · refine (readActive_outcome s).mono fun r t ho hz => ?_
    exact ho.elim And.right fun hf => absurd hz hf.1

theorem read_failure {owner : Option SessionOwner} {lto : UInt64}
    (ha : s.session.state = .active)
    (hv : ownerAndTokenValid s.session owner lto = 0) :
    (vdPmuSessionRead owner lto true).wp (fun r t => r.1 ≠ 0 → RestoreCalled s t) s := by
  have ho : (readActive s.session).wp (fun r t => r.1 ≠ 0 → RestoreCalled s t) s :=
    (readActive_outcome s).mono fun r t ho hf =>
      ho.elim (fun hs => absurd hs.1 hf) And.right
  simpa [vdPmuSessionRead, hv, ha] using ho

theorem acquire_refused (request : Option SessionRequest) (backend : Option Backend)
    (storage : Bool) (ho : s.session.state ≠ .empty) :
    (vdPmuSessionAcquire owner request backend storage).wp (fun r t => r.1 < 0 ∧ t = s) s := by
  simp only [vdPmuSessionAcquire, wp_bind, wp_read]
  split
  · simp only [wp_ite, wp_pure]
    refine ⟨fun _ => ⟨by decide, trivial⟩, fun _ => ⟨fun _ => ⟨by decide, trivial⟩, fun _ => ?_⟩⟩
    exact ⟨fun _ => ⟨by decide, trivial⟩, fun he => absurd ho he⟩
  · exact ⟨by decide, rfl⟩

theorem TokensCounted.nodup (hc : TokensCounted s)
    (few : (tokens s.calls).length < 2 ^ 64) : (tokens s.calls).Nodup := by
  rw [hc.taken few]
  refine List.Nodup.map_on (fun i hi j hj hs => ?_) nodup_range
  have hv := congrArg UInt64.toNat hs
  rw [mem_range] at hi hj
  simp only [toNat_ofNat', mod_eq_of_lt (show i + 1 < 2 ^ 64 by omega),
    mod_eq_of_lt (show j + 1 < 2 ^ 64 by omega)] at hv
  omega

end Outcomes

/-- In every state of every sequence of calls: an open obligation keeps its lease
and blocks acquisition, a successful read was timed inside the lease, a read of the
active session that fails called the restore callback, and tokens do not repeat. -/
theorem pmuSession_keeps_obligation {c : Config Unit PmuState PmuReply} (run : PmuRun c) :
    (∀ lease, (obligation c.shared.calls).lease = some lease →
      c.shared.session.state ≠ .empty ∧ c.shared.session.lease = lease ∧
      ∀ owner request backend storage code token t,
        (vdPmuSessionAcquire owner request backend storage).Ends c.shared (code, token) t →
          code < 0 ∧ t = c.shared) ∧
    (∀ owner leaseToken storage reading t,
      (vdPmuSessionRead owner leaseToken storage).Ends c.shared (0, reading) t →
        SampledInLease c.shared t) ∧
    (∀ owner leaseToken code reading t, c.shared.session.state = .active →
      ownerAndTokenValid c.shared.session owner leaseToken = 0 →
      (vdPmuSessionRead owner leaseToken true).Ends c.shared (code, reading) t →
        code ≠ 0 → RestoreCalled c.shared t) ∧
    ((tokens c.shared.calls).length < 2 ^ 64 → (tokens c.shared.calls).Nodup) := by
  have hk := pmuRun_kept run
  refine ⟨fun lease hb => ?_, ?_, ?_, hk.counted.nodup⟩
  · obtain ⟨ho, hs⟩ := hk.bound lease hb
    refine ⟨ho, hs, fun owner request backend storage code token t he => ?_⟩
    exact he.post (acquire_refused owner request backend storage ho)
  · intro owner leaseToken storage reading t he
    exact he.post (read_success c.shared owner leaseToken storage) rfl
  · intro owner leaseToken code reading t active hv he
    exact he.post (read_failure active hv)

/-- An idle PMU whose clock stands at zero; every callback succeeds. -/
def idleReply : PmuReply :=
  ⟨0, 0, { zeroLease.original with eventCounterCount := 6, rawPmcr := 0x3000 }, ⟨0, fun _ => 0⟩⟩

/-- A lease of one second on the instruction cache misses of core 0. -/
def acquireMisses : PmuCall :=
  .acquire (some ⟨1, 7, 0⟩) (some ⟨48, 1, 1000, 0, 1, fun i => if i = 0 then 1 else 0, fun _ => 0⟩)
    (some ⟨0, true, true, true, true, true⟩) true

theorem pmuSession_keeps_obligation_acquired : ∃ c lease, PmuRun c ∧
    (obligation c.shared.calls).lease = some lease ∧ c.shared.session.lease = lease := by
  have ho : (acquireMisses.program.exec (List.replicate 16 idleReply) booted).map
      (fun r => (obligation r.2.1.calls).lease.isSome) = some true := by
    decide +kernel
  obtain ⟨⟨_, t, unread⟩, he, how⟩ := map_eq_some_iff.mp ho
  obtain ⟨lease, hb⟩ := isSome_iff_exists.mp how
  have hs : PmuRun ⟨booted, Function.update (fun _ => pure ()) () acquireMisses.program⟩ :=
    .step .init (.call () _ rfl ⟨acquireMisses, rfl⟩)
  have run : PmuRun ⟨t, _⟩ := hs.finish (ends_of_exec he)
  exact ⟨_, lease, run, hb, ((pmuSession_keeps_obligation run).1 lease hb).2.1⟩

end VitaDebugger.PmuObligation
