import VitaDebugger.BrokerTickets

/-! The attach broker's service: its configuration, generation and nonces stay valid, so the
host reads every response. -/

namespace VitaDebugger.BrokerService
open AsciiText Broker BrokerAgreement BrokerHost BrokerLedger BrokerRecords BrokerRequests
  BrokerTickets
  BrokerWire LowerHex TerminatedLines TraceMonitor BrokerWire World

variable {calls after : ℕ}

section Random
variable {e : Entropy}

theorem fillRandom_ok {size ats : ℕ} {bs : Bytes}
    (run : fillRandom e size ats calls = (.ok bs, after)) :
    bs.length = size ∧ bs.any (· != 0) = true := by
  induction ats generalizing calls with
  | zero => cases run
  | succ ats ih =>
    rw [fillRandom] at run
    split at run
    · cases run
    dsimp only at run
    split at run
    · rename_i hn
      cases run
      exact ⟨by rw [List.length_map, List.length_range], hn⟩
    · exact ih run

theorem hexChar_of_ne_zero : ∀ {byte : UInt8}, byte ≠ 0 →
    hexChar (byte >>> 4) ≠ 48 ∨ hexChar (byte &&& 15) ≠ 48 := by
  decide +kernel

theorem vdMakeToken_ok {t : Bytes} (run : vdMakeToken e calls = (.ok t, after)) :
    HexField t 64 false := by
  unfold vdMakeToken at run
  split at run
  · cases run
  rename_i bs _ hdr
  cases run
  obtain ⟨hl, hn⟩ := fillRandom_ok hdr
  refine ⟨by rw [encode_length, hl], encode_isHex bs, Or.inr fun hz => ?_⟩
  rw [hexValue_eq_zero (encode_isHex bs)] at hz
  obtain ⟨byte, hm, ho⟩ := List.any_eq_true.mp hn
  have hd (c : UInt8) (hi : c ∈ [hexChar (byte >>> 4), hexChar (byte &&& 15)]) : c = 48 :=
    hz c (List.mem_flatMap.mpr ⟨byte, hm, hi⟩)
  rcases hexChar_of_ne_zero (bne_iff_ne.mp ho) with hh | low
  · exact hh (hd _ List.mem_cons_self)
  · exact low (hd _ (List.mem_cons_of_mem _ List.mem_cons_self))

theorem drawFresh_ok {α : Type} {draw : ℕ → Except BrokerError α × ℕ} {t : α → Bool}
    {ats : ℕ} {v : α} (run : (drawFresh draw t ats calls).1 = .ok v) :
    ∃ b after, draw b = (.ok v, after) := by
  induction ats generalizing calls with
  | zero => cases run
  | succ ats ih =>
    rw [drawFresh] at run
    split at run
    · cases run
    rename_i drawn after ho
    split at run
    · exact ih run
    · cases run
      exact ⟨calls, after, ho⟩

theorem vdMakeU64_ok {v : UInt64} (run : vdMakeU64 e calls = (.ok v, after)) : v ≠ 0 := by
  unfold vdMakeU64 at run
  split at run
  · cases run
  dsimp only at run
  split at run
  · cases run
  · rename_i hn
    cases run
    exact hn

end Random

/-- What the writers rest on. -/
structure Serving (broker : VdAttachBroker) : Prop where
  config : configIsValid broker.config = true
  generation : broker.serviceGeneration ≠ 0
  nonce : ∀ i, (broker.sessions i).active = true → HexField (broker.sessions i).serverNonce 64 false

/-- The service of a broker goes on: sessions that are active were so, with the same nonce. -/
structure Continues (old new : VdAttachBroker) : Prop where
  config : new.config = old.config
  generation : new.serviceGeneration = old.serviceGeneration
  nonce : ∀ i, (new.sessions i).active = true →
    (old.sessions i).active = true ∧ (new.sessions i).serverNonce = (old.sessions i).serverNonce

theorem Serving.continues {old new : VdAttachBroker} (hs : Serving old)
    (hc : Continues old new) : Serving new := by
  refine ⟨hc.config ▸ hs.config, hc.generation ▸ hs.generation, ?_⟩
  intro i ha
  obtain ⟨hb, hsa⟩ := hc.nonce i ha
  exact hsa ▸ hs.nonce i hb

theorem Continues.refl (broker : VdAttachBroker) : Continues broker broker :=
  ⟨rfl, rfl, fun _ ha => ⟨ha, rfl⟩⟩

theorem Continues.trans {f s t : VdAttachBroker} (one : Continues f s)
    (two : Continues s t) : Continues f t := by
  refine ⟨two.config.trans one.config, two.generation.trans one.generation, fun i ha => ?_⟩
  obtain ⟨hm, hs⟩ := two.nonce i ha
  obtain ⟨hb, he⟩ := one.nonce i hm
  exact ⟨hb, hs.trans he⟩

variable {session : VdAttachBrokerSession} {broker : VdAttachBroker}

theorem Continues.set {i : Fin 4} (ha : session.active = true → (broker.sessions i).active = true)
    (hn : session.active = true → session.serverNonce = (broker.sessions i).serverNonce) :
    Continues broker (broker.set i session) := by
  refine ⟨rfl, rfl, fun j hh => ?_⟩
  by_cases hs : j = i
  · rw [hs, set_same] at hh ⊢
    exact ⟨ha hh, hn hh⟩
  · rw [set_other hs] at hh ⊢
    exact ⟨hh, rfl⟩

variable {sessionId peerId : UInt64}

section Frames
variable {i : Fin 4} {r : Bytes} {capacity : ℕ}
  {ans : Answers}

theorem claim_frame {c : VdAttachBrokerSession} {requestId : Bytes}
    (hc : vdRequestIdClaim session requestId = .ok c) :
    c.active = session.active ∧ c.serverNonce = session.serverNonce := by
  obtain ⟨_, rfl⟩ := vdRequestIdClaim_ok hc
  exact ⟨rfl, rfl⟩

theorem vdHandleHello_continues : Continues broker (vdHandleHello broker i r capacity).broker := by
  unfold vdHandleHello
  dsimp only
  split
  · exact .refl _
  split
  · exact .refl _
  split
  · exact .refl _
  · rename_i hc
    obtain ⟨ha, hn⟩ := claim_frame hc
    exact .set (fun hh => ha ▸ hh) fun _ => hn

theorem discoverTarget_continues {d : VdDiscoverRequest}
    (ha : session.active = (broker.sessions i).active)
    (hn : session.serverNonce = (broker.sessions i).serverNonce) :
    Continues broker (discoverTarget broker i capacity ans session d).broker := by
  have hk (ticket : VdAttachBrokerTicket) :
      Continues broker (broker.set i { session with ticket := ticket }) :=
    .set (fun hh => ha ▸ hh) fun _ => hn
  have ht : Continues broker (broker.set i session) := hk session.ticket
  unfold discoverTarget
  dsimp only
  split
  · exact ht
  split
  · exact ht
  split
  · split
    · exact ht
    split
    · rw [set_set]
      exact hk _
    · rw [set_set]
      exact hk _
  · exact ht

theorem vdHandleDiscover_continues :
    Continues broker (vdHandleDiscover broker i r capacity ans).broker := by
  unfold vdHandleDiscover
  dsimp only
  split
  · exact .refl _
  split
  · exact .refl _
  split
  · exact .refl _
  split
  · exact .refl _
  · rename_i hc
    obtain ⟨ha, hn⟩ := claim_frame hc
    exact discoverTarget_continues ha hn

theorem releaseTicket_continues {release : VdReleaseRequest}
    (ha : session.active = (broker.sessions i).active)
    (hn : session.serverNonce = (broker.sessions i).serverNonce) :
    Continues broker (releaseTicket broker i capacity ans session release).broker := by
  have hk (ticket : VdAttachBrokerTicket) :
      Continues broker (broker.set i { session with ticket := ticket }) :=
    .set (fun hh => ha ▸ hh) fun _ => hn
  have hu :
    Continues broker ((broker.set i session).set i { session with ticket := zeroTicket }) := by
    rw [set_set]
    exact hk _
  unfold releaseTicket
  dsimp only
  split
  · exact hk session.ticket
  split
  · exact hu
  split
  · split
    · exact hu
    · split
      · exact hu
      · exact hu
  · exact hu
  · exact hu
  · exact hu

theorem vdHandleRelease_continues :
    Continues broker (vdHandleRelease broker i r capacity ans).broker := by
  unfold vdHandleRelease
  dsimp only
  split
  · exact .refl _
  split
  · exact .refl _
  split
  · exact .refl _
  split
  · exact .refl _
  · rename_i hc
    obtain ⟨ha, hn⟩ := claim_frame hc
    exact releaseTicket_continues ha hn

theorem vdExpireTickets_continues {now : UInt64} :
    Continues broker (vdExpireTickets broker now) := by
  refine ⟨rfl, rfl, fun j ha => ?_⟩
  rcases vdExpireTickets_cases broker now j with hc | ⟨hk, _⟩
  · rw [hc] at ha ⊢
    exact ⟨ha, rfl⟩
  · rw [hk] at ha ⊢
    exact ⟨ha, rfl⟩

theorem vdHandleRecordWithDeadline_continues : Continues broker
      (vdHandleRecordWithDeadline broker sessionId peerId r capacity ans).broker := by
  have he : Continues broker (vdExpireTickets broker ans.now) := vdExpireTickets_continues
  unfold vdHandleRecordWithDeadline
  split
  · exact .refl _
  split
  · exact .refl _
  split
  · exact .refl _
  split
  · exact he.trans vdHandleHello_continues
  split
  · exact he.trans vdHandleDiscover_continues
  · split
    · exact he.trans vdHandleRelease_continues
    · exact he

end Frames

section Runs
variable {w : World}

theorem record_broker (now : UInt64) (w : World) (e : Fin 4 × Effect) :
    (record now w e).broker = w.broker := by
  obtain ⟨i, e⟩ := e
  cases e <;> rfl

theorem apply_broker (now : UInt64) (w : World) (o : Outcome) :
    (w.apply now o).broker = o.broker := by
  have hf (es : List (Fin 4 × Effect)) (w : World) :
      (es.foldl (record now) w).broker = w.broker := by
    induction es generalizing w with
    | nil => rfl
    | cons effect es ih => rw [List.foldl_cons, ih, record_broker]
  exact hf _ _

theorem step_serving (hs : Serving w.broker) (call : Call) : Serving (w.step call).broker := by
  cases call with
  | openSession peerId now en =>
    change Serving (w.openSession peerId now en).broker
    unfold openSession
    rcases vdAttachBrokerOpenSession_cases w.broker peerId now en with
      ⟨after, e, run, hc, hg, hsl, hn⟩ | ⟨i, candidate, nonce, calls, run, _, hf⟩
    · rw [run]
      exact hs.continues ⟨hc, hg, fun j ha => ⟨(hsl j).active ha, hn j ha⟩⟩
    rw [run]
    have he := hs.continues (@vdExpireTickets_continues w.broker now)
    refine ⟨he.config, he.generation, fun j ha => ?_⟩
    by_cases hh : j = i
    · obtain ⟨_, _, hd⟩ := drawFresh_ok hf
      rw [hh, set_same]
      exact vdMakeToken_ok hd
    · rw [set_other hh] at ha ⊢
      exact he.nonce j ha
  | handleRecord sessionId peerId request capacity answers =>
    change Serving (w.apply _ _).broker
    rw [apply_broker]
    exact hs.continues vdHandleRecordWithDeadline_continues
  | closeSession sessionId peerId =>
    change Serving (vdAttachBrokerCloseSession w.broker sessionId peerId)
    unfold vdAttachBrokerCloseSession
    split
    · exact hs
    · exact hs.continues (.set nofun nofun)
  | shutdown => exact ⟨hs.config, hs.generation, nofun⟩

theorem run_serving (hs : Serving w.broker) (calls : List Call) : Serving (w.run calls).broker := by
  induction calls generalizing w with
  | nil => exact hs
  | cons call calls ih => exact ih (step_serving hs call)

theorem vdAttachBrokerInit_ok {config : VdAttachBrokerConfig} {entropy : Entropy}
    (hi : vdAttachBrokerInit config entropy = .ok broker) :
    Serving broker ∧ ∀ i, (broker.sessions i).active = false := by
  unfold vdAttachBrokerInit at hi
  split at hi
  · cases hi
  rename_i hv
  split at hi
  · cases hi
  rename_i hd
  cases hi
  rw [Bool.not_eq_false] at hv
  exact ⟨⟨hv, vdMakeU64_ok hd, nofun⟩, fun _ => rfl⟩

end Runs

variable {unicode : TraceDecoder.UnicodeData}

section Responses
variable {i : Fin 4} {request data : Bytes} {c : ℕ}
  {answers : Answers} (tables : DisplayTables)

theorem vdHandleHello_response (hs : Serving broker) (ha : (broker.sessions i).active = true)
    (run : (vdHandleHello broker i request c).response = .ok data) :
    ∃ result, parseHelloResult tables.toUnicodeData data = .ok result := by
  unfold vdHandleHello at run
  dsimp only at run
  split at run
  · cases run
  split at run
  · cases run
  rename_i hp
  split at run
  · cases run
  rename_i hc
  obtain ⟨hif, hcf⟩ := hello_parsed hp
  have hn := (claim_frame hc).2 ▸ hs.nonce i ha
  exact ⟨_, hello_written tables hs.config hs.generation hn hif hcf run⟩

theorem inventoryState_answer (t : Bytes) {r : VdAttachInventoryResult}
    (other : r ≠ .found) : DiscoverAnswer t (vdInventoryState r) none none := by
  refine Or.inr ⟨?_, rfl, rfl⟩
  cases r with
  | found => exact absurd rfl other
  | notFound => decide
  | denied => decide
  | changed => decide
  | error => decide
  | unavailable => decide
  | other code =>
    change ascii "error" ∈ _
    decide

theorem discoverTarget_response (hs : Serving broker) {d : VdDiscoverRequest}
    (hn : HexField session.serverNonce 64 false)
    (hif : HexField d.requestId 32 false)
    (ht : vdTitleIsValid d.titleId = true)
    (run : (discoverTarget broker i c answers session d).response = .ok data) :
    ∃ r, parseDiscoverResult tables.toUnicodeData data = .ok r := by
  have hr {s m : Bytes} {idn : Option VdAttachTargetIdentity}
      {t : Option Bytes} (ha : DiscoverAnswer d.titleId s idn t)
      (hw : vdWriteDiscoverResult broker.serviceGeneration session.serverNonce d s
        idn t m c = .ok data) :
      ∃ r, parseDiscoverResult tables.toUnicodeData data = .ok r :=
    ⟨_, discover_written tables hs.generation hn hif ht ha hw⟩
  have hf : DiscoverAnswer d.titleId (ascii "error") none none :=
    Or.inr ⟨by decide, rfl, rfl⟩
  unfold discoverTarget at run
  dsimp only at run
  split at run
  · exact hr hf run
  split at run
  · exact hr hf run
  split at run
  · split at run
    · exact hr hf run
    rename_i hv
    split at run
    · exact hr hf run
    rename_i token hd
    obtain ⟨_, _, hm⟩ := drawFresh_ok hd
    rw [Bool.not_eq_false] at hv
    exact hr (Or.inl ⟨rfl, _, _, rfl, rfl, hv, vdTokenIsValid_iff.mpr (vdMakeToken_ok hm)⟩) run
  · rename_i r ignored he hre
    exact hr (inventoryState_answer _ fun hsa => he hsa) run

theorem vdHandleDiscover_response (hs : Serving broker) (ha : (broker.sessions i).active = true)
    (run : (vdHandleDiscover broker i request c answers).response = .ok data) :
    ∃ result, parseDiscoverResult tables.toUnicodeData data = .ok result := by
  unfold vdHandleDiscover at run
  dsimp only at run
  split at run
  · cases run
  split at run
  · cases run
  rename_i hp
  split at run
  · cases run
  split at run
  · cases run
  rename_i hc
  obtain ⟨hif, ht⟩ := discover_parsed hp
  have hn := (claim_frame hc).2 ▸ hs.nonce i ha
  exact discoverTarget_response tables hs hn hif ht run

/-- What a release did in its session if it was answered with `released`. -/
def ReleasedBy (i : Fin 4) (answers : Answers) (session : VdAttachBrokerSession)
    (token : Bytes) (effects : List (Fin 4 × Effect)) : Prop :=
  session.ticket.active = true ∧ session.ticket.token = token ∧
    answers.discoverExact session.ticket.identity.titleId = (.found, session.ticket.identity) ∧
    ∃ requestId, effects = [(i, .accepted requestId), (i, .consumed),
      (i, .released session.ticket.identity)]

theorem releaseTicket_response (hs : Serving broker) {release : VdReleaseRequest}
    (hno : HexField session.serverNonce 64 false) (hif : HexField release.requestId 32 false)
    (htf : HexField release.ticket 64 false)
    (run : (releaseTicket broker i c answers session release).response = .ok data) :
    ∃ r, parseReleaseResult tables.toUnicodeData data = .ok r ∧
      (r.state = ascii "released" → ReleasedBy i answers session r.targetTicket
        (releaseTicket broker i c answers session release).effects) := by
  have hra {s m : Bytes} (hk : s ∈ releaseStates)
      (hw : vdWriteReleaseResult broker.serviceGeneration session.serverNonce release s
        m c = .ok data) :
      ∃ r, parseReleaseResult tables.toUnicodeData data = .ok r ∧ r.state = s ∧
        r.targetTicket = release.ticket :=
    ⟨_, release_written tables hs.generation hno hif htf hk hw, rfl, rfl⟩
  have hu {s m : Bytes} {rs : ReleaseResult → Prop}
      (hk : s ∈ releaseStates)
      (hot : s ≠ ascii "released")
      (hw : vdWriteReleaseResult broker.serviceGeneration session.serverNonce release s
        m c = .ok data) :
      ∃ r, parseReleaseResult tables.toUnicodeData data = .ok r ∧
        (r.state = ascii "released" → rs r) := by
    obtain ⟨r, hp, hsa, _⟩ := hra hk hw
    exact ⟨r, hp, fun hre => absurd (hsa.symm.trans hre) hot⟩
  unfold releaseTicket at run ⊢
  dsimp only at run ⊢
  split at run
  · refine hu ?_ ?_ run
    · split <;> decide
    · split <;> decide
  rename_i ho
  rw [if_neg ho]
  rw [not_or, Bool.not_eq_false] at ho
  split at run
  · exact hu (by decide) (by decide) run
  rename_i hpr
  rw [if_neg hpr]
  split at run
  · rename_i current hr
    split at run
    · exact hu (by decide) (by decide) run
    rename_i hv
    split at run
    · rename_i hm
      obtain ⟨r, hp, _, hn⟩ := hra (by decide) run
      refine ⟨r, hp, fun _ => ?_⟩
      rw [if_neg hv, if_pos hm, vdIdentityMatches_eq hm]
      rw [vdIdentityMatches_eq hm] at hr
      rw [ne_eq, not_not] at ho
      exact ⟨ho.1, ho.2.trans hn.symm, hr, release.requestId, rfl⟩
    · exact hu (by decide) (by decide) run
  · exact hu (by decide) (by decide) run
  · exact hu (by decide) (by decide) run
  · exact hu (by decide) (by decide) run

theorem vdHandleRelease_response (hs : Serving broker) (hac : (broker.sessions i).active = true)
    (run : (vdHandleRelease broker i request c answers).response = .ok data) :
    ∃ r, parseReleaseResult tables.toUnicodeData data = .ok r ∧
      (r.state = ascii "released" →
        ReleasedBy i answers (broker.sessions i) r.targetTicket
        (vdHandleRelease broker i request c answers).effects) := by
  unfold vdHandleRelease at run ⊢
  dsimp only at run ⊢
  split at run
  · cases run
  rename_i hg
  rw [if_neg hg]
  split at run
  · cases run
  rename_i release hp
  split at run
  · cases run
  rename_i ha
  rw [if_neg ha]
  split at run
  · cases run
  rename_i session hc
  obtain ⟨hif, htf⟩ := release_parsed hp
  have hn := (claim_frame hc).2 ▸ hs.nonce i hac
  have hsa : session.ticket = (broker.sessions i).ticket := by
    obtain ⟨_, rfl⟩ := vdRequestIdClaim_ok hc
    rfl
  obtain ⟨r, hre, hr⟩ := releaseTicket_response tables hs hn hif htf run
  refine ⟨r, hre, fun hst => ?_⟩
  have hbt := hr hst
  rw [ReleasedBy, hsa] at hbt
  exact hbt

theorem parseRecord_header {α : Type} {hd l : String} {keys : List String}
    {next : Values → Except String α} {result : α}
    (hp : (parseRecord data hd keys l >>= next) = .ok result)
    (hhp : 10 ∉ ascii hd) (hpl : ∀ key ∈ keys.map ascii, 10 ∉ key) :
    ∃ rest, cutLine data = some (ascii hd, rest) := by
  obtain ⟨fields, hre, _⟩ := Fallible.bind_ok.mp hp
  obtain ⟨vs, hr, _⟩ := (parseRecord_ok hhp hpl).mp hre
  refine ⟨unlines 10 (List.zipWith fieldLine (keys.map ascii) vs), cutLine_some.mpr ⟨?_, hhp⟩⟩
  rw [hr.text, recordText, unlines_cons]

theorem headers_differ {f s : Bytes} (hu : f ≠ s)
    (one : ∃ rest, cutLine data = some (f, rest))
    (ho : ∃ rest, cutLine data = some (s, rest)) : False := by
  obtain ⟨_, one⟩ := one
  obtain ⟨_, ho⟩ := ho
  rw [one, Option.some.injEq, Prod.mk.injEq] at ho
  exact hu ho.1

/-- The response is a release result that says `released` of the ticket. -/
def ReleasedAnswer (token data : Bytes) : Prop :=
  ∃ result, parseReleaseResult tables.toUnicodeData data = .ok result ∧
    result.state = ascii "released" ∧ result.targetTicket = token

/-- Behind the answer `released` stands a release in the session that was addressed. -/
theorem released_answer {t : Bytes} (hs : Serving broker)
    (run : (vdHandleRecordWithDeadline broker sessionId peerId request c answers).response =
      .ok data) (han : ReleasedAnswer tables t data) :
    ∃ i, vdFindSession broker sessionId peerId = .ok i ∧
      ReleasedBy i answers ((vdExpireTickets broker answers.now).sessions i) t
        (vdHandleRecordWithDeadline broker sessionId peerId request c answers).effects := by
  obtain ⟨result, hp, hst, hn⟩ := han
  have hh := parseRecord_header hp (by decide) (by decide)
  unfold vdHandleRecordWithDeadline at run ⊢
  split at run
  · cases run
  rename_i hro
  rw [if_neg hro]
  split at run
  · cases run
  rename_i hos
  rw [if_neg hos]
  split at run
  · cases run
  rename_i i hf
  have ha : ((vdExpireTickets broker answers.now).sessions i).active = true :=
    (vdExpireTickets_active i).trans (vdFindSession_active hf)
  have he := hs.continues (@vdExpireTickets_continues broker answers.now)
  refine ⟨i, hf, ?_⟩
  split at run
  · obtain ⟨_, hhe⟩ := vdHandleHello_response tables he ha run
    exact (headers_differ (by decide) hh (parseRecord_header hhe (by decide) (by decide))).elim
  rename_i hnh
  rw [if_neg hnh]
  split at run
  · obtain ⟨_, hd⟩ := vdHandleDiscover_response tables he ha run
    exact (headers_differ (by decide) hh (parseRecord_header hd (by decide) (by decide))).elim
  rename_i hnd
  rw [if_neg hnd]
  split at run
  · obtain ⟨other, hr, hre⟩ := vdHandleRelease_response tables he ha run
    rename_i hir
    rw [if_pos hir]
    rw [hp, Except.ok.injEq] at hr
    rw [← hn, hr]
    exact hre (hr ▸ hst)
  · cases run

end Responses

section Tickets
variable {w : World}

section
variable (a : Accounted w)
include a

theorem consumed_once (t : ℕ) :
    w.log.countP (fun | .consumed _ t' => t' == t | _ => false) ≤ 1 := by
  refine Monitor.countP_le_one a.legal ?_
  intro before ev ha hk er hm
  rw [ledger_after] at ha
  cases ev with
  | consumed s t' =>
    obtain rfl := beq_iff_eq.mp hk
    cases er with
    | consumed s' u =>
      refine beq_eq_false_iff_ne.mpr ?_
      rintro rfl
      exact ha.2 s' hm
    | _ => rfl
  | _ => cases hk

theorem accepted_once (s : ℕ) (requestId : Bytes) :
    w.log.countP (· == .accepted s requestId) ≤ 1 := by
  refine Monitor.countP_le_one a.legal ?_
  intro before event ha hk earlier hm
  rw [ledger_after] at ha
  obtain rfl := beq_iff_eq.mp hk
  refine beq_eq_false_iff_ne.mpr ?_
  rintro rfl
  exact ha hm

theorem issued_unique {s s' t : ℕ} {g o : VdAttachBrokerTicket}
    (hf : .issued s t g ∈ w.log) (hs : .issued s' t o ∈ w.log) : s = s' := by
  have hsa : Event.issued s t g = .issued s' t o := by
    refine Monitor.eq_of_kind (p := fun | .issued _ u _ => u == t | _ => false) a.legal ?_
      hf hs (beq_self_eq_true t) (beq_self_eq_true t)
    intro before ev ha hk er hm
    rw [ledger_after] at ha
    cases ev with
    | issued s u g =>
      obtain rfl := beq_iff_eq.mp hk
      cases er with
      | issued s' u' o =>
        refine beq_eq_false_iff_ne.mpr ?_
        rintro rfl
        exact ha s' o hm
      | _ => rfl
    | _ => cases hk
  cases hsa
  rfl

/-- A ticket is used and released through the session it was issued to. -/
theorem used_by_owner {s s' t : ℕ} {g : VdAttachBrokerTicket}
    (hi : .issued s t g ∈ w.log)
    (hu : .consumed s' t ∈ w.log ∨ ∃ now c, .released s' t now c ∈ w.log) :
    s' = s := by
  rcases hu with hc | ⟨now, c, hr⟩
  · obtain ⟨b, after, hs⟩ := List.append_of_mem hc
    have hl := a.legal _ _ _ hs
    rw [ledger_after] at hl
    obtain ⟨⟨o, he⟩, _⟩ := hl
    exact issued_unique a (hs ▸ List.mem_append_left _ he) hi
  obtain ⟨b, after, hs⟩ := List.append_of_mem hr
  have hl := a.legal _ _ _ hs
  rw [ledger_after] at hl
  obtain ⟨o, he, _⟩ := hl
  exact issued_unique a (hs ▸ List.mem_append_left _ he) hi

end

/-- In every run the answer `released` names an unused, unexpired ticket of the same session whose
identity is the one reported now; a ticket is used once, through its own session, and a session
accepts a request identifier once. -/
theorem broker_tickets {config : VdAttachBrokerConfig} {entropy : Entropy}
    (init : vdAttachBrokerInit config entropy = .ok broker) (calls : List Call)
    (tables : DisplayTables) :
    let w := (start broker).run calls
    (∀ sessionId peerId request capacity answers data token,
      (w.handle sessionId peerId request capacity answers).2 = .ok data →
      ReleasedAnswer tables token data →
      ∃ i ticket granted requestId, vdFindSession w.broker sessionId peerId = .ok i ∧
        granted.token = token ∧ .issued (w.serial i) ticket granted ∈ w.log ∧
        (∀ s, .consumed s ticket ∉ w.log) ∧ answers.now < granted.expiresAtMs ∧
        answers.discoverExact granted.identity.titleId = (.found, granted.identity) ∧
        (w.handle sessionId peerId request capacity answers).1.log = w.log ++
          [.accepted (w.serial i) requestId, .consumed (w.serial i) ticket,
            .released (w.serial i) ticket answers.now granted.identity]) ∧
    (∀ ticket, w.log.countP (fun | .consumed _ t => t == ticket | _ => false) ≤ 1) ∧
    (∀ s requestId, w.log.countP (· == .accepted s requestId) ≤ 1) ∧
    (∀ s s' ticket granted, .issued s ticket granted ∈ w.log →
      (.consumed s' ticket ∈ w.log ∨
        ∃ now current, .released s' ticket now current ∈ w.log) → s' = s) := by
  obtain ⟨hs, hc⟩ := vdAttachBrokerInit_ok init
  have accounted := run_accounted (Accounted.start hc) calls
  have serving : Serving ((start broker).run calls).broker := run_serving hs calls
  generalize (start broker).run calls = w at accounted serving
  refine ⟨?_, consumed_once accounted, accepted_once accounted, ?_⟩
  · intro sessionId peerId request capacity answers data token run answer
    obtain ⟨i, found, held, named, current, requestId, effects⟩ :=
      released_answer tables serving run answer
    have active := vdFindSession_active found
    -- the ticket survived the expiry that the call began with, so it is live there
    have kept := accounted.retains fun j => @vdExpireTickets_retains _ answers.now j
    have live : Live { w with broker := vdExpireTickets w.broker answers.now } i :=
      ⟨(vdExpireTickets_active i).trans active, held⟩
    refine ⟨i, w.number i, _, requestId, found, named, kept.ticket_issued i live,
      fun s => kept.unconsumed i s live, vdExpireTickets_valid active held, current, ?_⟩
    simp only [handle, apply, effects, List.foldl_cons, List.foldl_nil, record,
      List.append_assoc, List.cons_append, List.nil_append]
  · intro s s' ticket granted issued used
    exact used_by_owner accounted issued used

/-- A random source that always gives the same byte. -/
def steady (byte : UInt8) : Entropy := fun _ => some fun _ => byte

def sampleBroker : VdAttachBroker := ⟨sampleConfig, 0x0101010101010101, false, fun _ => zeroSession⟩

def sampleAnswers : Answers :=
  ⟨10, fun title => (.found, ⟨title, 0x10005, 0x4001, 0xdeadbeef, 9⟩), steady 3, 20⟩

/-- The token drawn from a steady source. -/
def steadyToken (digit : UInt8) : Bytes := (List.replicate 32 [48, digit]).flatten

/-- A session is opened, greeted and given a ticket. -/
def sampleCalls : List Call :=
  let handle (request : Bytes) : Call :=
    .handleRecord 0x0202020202020202 7 request 4096 sampleAnswers
  [.openSession 7 0 (steady 2), handle (recordText helloHeader helloKeys
      [List.replicate 31 48 ++ [97], sampleToken, modeObserve, hexText 8 0x1000e, hexText 8 1]),
    handle (recordText discoverHeader discoverKeys
      [List.replicate 31 48 ++ [98], steadyToken 50, hexText 16 0x0101010101010101,
        ascii "PCSE00001", modeObserve])]

def sampleRelease : Bytes :=
  recordText releaseHeader releaseKeys
    [List.replicate 31 48 ++ [99], steadyToken 50, hexText 16 0x0101010101010101, steadyToken 51]

theorem broker_tickets_released : let w := (start sampleBroker).run sampleCalls
    ∃ data, (w.handle 0x0202020202020202 7 sampleRelease 4096 sampleAnswers).2 = .ok data ∧
      ∃ i ticket granted requestId, vdFindSession w.broker 0x0202020202020202 7 = .ok i ∧
        granted.token = steadyToken 51 ∧ .issued (w.serial i) ticket granted ∈ w.log ∧
        (w.handle 0x0202020202020202 7 sampleRelease 4096 sampleAnswers).1.log = w.log ++
          [.accepted (w.serial i) requestId, .consumed (w.serial i) ticket,
            .released (w.serial i) ticket 10 granted.identity] := by
  have ha : (do
      let data ← (((start sampleBroker).run sampleCalls).handle 0x0202020202020202 7
        sampleRelease 4096 sampleAnswers).2.toOption
      let r ← (parseReleaseResult plainTables.toUnicodeData data).toOption
      pure (r.state, r.targetTicket)) =
      some (ascii "released", steadyToken 51) := by
    decide +kernel
  simp only [Option.bind_eq_bind, Option.bind_eq_some_iff, Fallible.toOption_some, Option.pure_def,
    Option.some.injEq, Prod.mk.injEq] at ha
  obtain ⟨data, run, r, hp, hs, hn⟩ := ha
  have hin : vdAttachBrokerInit sampleConfig (steady 1) = .ok sampleBroker := rfl
  obtain ⟨i, ticket, granted, requestId, hf, ht, hi, _, _, _, hl⟩ :=
    (broker_tickets hin sampleCalls plainTables).1 _ _ _ _ _ _ _ run ⟨r, hp, hs, hn⟩
  exact ⟨data, run, i, ticket, granted, requestId, hf, ht, hi, hl⟩

end Tickets

end VitaDebugger.BrokerService
