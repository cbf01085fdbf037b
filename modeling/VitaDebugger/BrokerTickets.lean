import VitaDebugger.BrokerAgreement
import VitaDebugger.BrokerLedger

/-! Tickets of the attach broker in whole runs: to whom they were issued, when they can be used
and what the answer `released` says. -/

namespace VitaDebugger.BrokerTickets
open Broker BrokerLedger BrokerWire List

variable {session : VdAttachBrokerSession}

section Handlers
variable {w : World} {broker : VdAttachBroker} {i : Fin 4} {r : Bytes} {c : ℕ}
  {ans : Answers} {now : UInt64}

theorem vdRequestIdClaim_ok {c : VdAttachBrokerSession} {requestId : Bytes}
    (hc : vdRequestIdClaim session requestId = .ok c) : requestId ∉ session.requestIds ∧
      c = { session with requestIds := session.requestIds ++ [requestId] } := by
  unfold vdRequestIdClaim at hc
  split at hc
  · cases hc
  rename_i hf
  split at hc
  · cases hc
  · cases hc
    exact ⟨hf, rfl⟩

theorem retains_set (hh : Retains (broker.sessions i) session) :
    ∀ j, Retains (broker.sessions j) ((broker.set i session).sessions j) := by
  intro j
  by_cases hs : j = i
  · rw [hs, set_same]
    exact hh
  · rw [set_other hs]
    exact .refl _

theorem set_set (f s : VdAttachBrokerSession) : (broker.set i f).set i s = broker.set i s := by
  simp [VdAttachBroker.set]

/-- The world behind a request whose identifier was claimed. -/
def claimed (w : World) (now : UInt64) (i : Fin 4) (session : VdAttachBrokerSession)
    (requestId : Bytes) : World :=
  World.record now { w with broker := w.broker.set i session } (i, .accepted requestId)

theorem claimed_accounted (now : UInt64) (ha : Accounted w)
    (hac : (w.broker.sessions i).active = true) {requestId : Bytes}
    (hf : requestId ∉ (w.broker.sessions i).requestIds)
    (ids : session.requestIds = (w.broker.sessions i).requestIds ++ [requestId])
    (hk : session.active = true → session.ticket.active = true →
      session.ticket = (w.broker.sessions i).ticket) :
    Accounted (claimed w now i session requestId) := by
  have hh : Retains (w.broker.sessions i) session :=
    ⟨fun _ => hac, fun _ id hm => ids ▸ mem_append_left _ hm, hk⟩
  refine ha.accept hac hf (retains_set hh) ?_
  rw [set_same, ids]
  exact mem_append_right _ (mem_singleton.mpr rfl)

section
variable (a : Accounted w)
include a

theorem refused_accounted (e : BrokerError) : Accounted (w.apply now (refused w.broker e)) := a

section
variable (ac : (w.broker.sessions i).active = true)
include ac

theorem vdHandleHello_accounted : Accounted (w.apply now (vdHandleHello w.broker i r c)) := by
  unfold vdHandleHello
  dsimp only
  split
  · exact refused_accounted a _
  split
  · exact refused_accounted a _
  split
  · exact refused_accounted a _
  · rename_i hc
    obtain ⟨hf, rfl⟩ := vdRequestIdClaim_ok hc
    exact claimed_accounted now a ac hf rfl fun _ _ => rfl

theorem discoverTarget_accounted {d : VdDiscoverRequest}
    (hc : vdRequestIdClaim (w.broker.sessions i) d.requestId = .ok session) :
    Accounted (w.apply now (discoverTarget w.broker i c ans session d)) := by
  obtain ⟨hf, hs⟩ := vdRequestIdClaim_ok hc
  have ht : Accounted (claimed w now i session d.requestId) :=
    claimed_accounted now a ac hf (by rw [hs]) fun _ _ => by rw [hs]
  have hh : (claimed w now i session d.requestId).broker.sessions i = session := set_same _
  unfold discoverTarget
  dsimp only
  split
  · exact ht
  split
  · exact ht
  split
  · split
    · exact ht
    split
    · rw [set_set]
      exact claimed_accounted now a ac hf (by rw [hs]) nofun
    have hsa : session.active = true := by rw [hs]; exact ac
    have hi (t : VdAttachBrokerTicket) :=
      @Accounted.issue _ i now ht t (by rw [hh]; exact hsa)
    rw [hh] at hi
    exact hi _
  · exact ht

theorem vdHandleDiscover_accounted :
    Accounted (w.apply now (vdHandleDiscover w.broker i r c ans)) := by
  unfold vdHandleDiscover
  dsimp only
  split
  · exact refused_accounted a _
  split
  · exact refused_accounted a _
  split
  · exact refused_accounted a _
  split
  · exact refused_accounted a _
  · rename_i hc
    exact discoverTarget_accounted a ac hc

end

end

theorem vdIdentityMatches_eq {left right : VdAttachTargetIdentity}
    (hs : vdIdentityMatches left right = true) : left = right := by
  cases left
  cases right
  simp only [vdIdentityMatches, Bool.and_eq_true, beq_iff_eq, and_assoc] at hs
  simpa using hs

theorem releaseTicket_accounted (ha : Accounted w) (hac : (w.broker.sessions i).active = true)
    (hv : (w.broker.sessions i).ticket.active = true →
      now < (w.broker.sessions i).ticket.expiresAtMs) {r : VdReleaseRequest}
    (hc : vdRequestIdClaim (w.broker.sessions i) r.requestId = .ok session) :
    Accounted (w.apply now (releaseTicket w.broker i c ans session r)) := by
  obtain ⟨hf, hs⟩ := vdRequestIdClaim_ok hc
  have ht : Accounted (claimed w now i session r.requestId) :=
    claimed_accounted now ha hac hf (by rw [hs]) fun _ _ => by rw [hs]
  have hh : (claimed w now i session r.requestId).broker.sessions i = session := set_same _
  have hsa : session.active = true := by rw [hs]; exact hac
  have hts : session.ticket = (w.broker.sessions i).ticket := by rw [hs]
  unfold releaseTicket
  dsimp only
  split
  · exact ht
  rename_i ho
  rw [not_or, Bool.not_eq_false] at ho
  have hl : Live (claimed w now i session r.requestId) i := by
    rw [Live, hh]
    exact ⟨hsa, ho.1⟩
  have hi := ht.ticket_issued i hl
  rw [hh] at hi
  have hu : Accounted (World.record now { claimed w now i session r.requestId with
      broker := (w.broker.set i session).set i { session with ticket := zeroTicket } }
      (i, .consumed)) := by
    refine ht.consume hl (retains_set ⟨fun _ => ?_, fun _ id hme => ?_, (by rintro - ⟨⟩)⟩) ?_
    · rw [hh]
      exact hsa
    · rwa [hh] at hme
    · rw [set_same]
      rfl
  split
  · exact hu
  split
  · split
    · exact hu
    split
    · rename_i hm
      rw [vdIdentityMatches_eq hm]
      refine hu.release (mem_append_left _ hi) ?_ ?_
      · rw [hts] at ho ⊢
        exact hv ho.1
      · exact mem_append_right _ (mem_singleton.mpr rfl)
    · exact hu
  · exact hu
  · exact hu
  · exact hu

theorem vdHandleRelease_accounted (ha : Accounted w) (hac : (w.broker.sessions i).active = true)
    (hv : (w.broker.sessions i).ticket.active = true →
      now < (w.broker.sessions i).ticket.expiresAtMs) :
    Accounted (w.apply now (vdHandleRelease w.broker i r c ans)) := by
  unfold vdHandleRelease
  dsimp only
  split
  · exact refused_accounted ha _
  split
  · exact refused_accounted ha _
  split
  · exact refused_accounted ha _
  split
  · exact refused_accounted ha _
  · rename_i hc
    exact releaseTicket_accounted ha hac hv hc

end Handlers

section Calls
variable {w : World} {broker : VdAttachBroker} {i : Fin 4} {now : UInt64}

theorem vdFindSession_active {sessionId peerId : UInt64}
    (hf : vdFindSession broker sessionId peerId = .ok i) : (broker.sessions i).active = true := by
  unfold vdFindSession at hf
  split at hf
  · cases hf
  rename_i slot hfi
  split at hf
  · cases hf
  cases hf
  have hm := List.find?_some hfi
  simp only [Bool.and_eq_true] at hm
  exact hm.1

theorem vdExpireTickets_cases (broker : VdAttachBroker) (now : UInt64) (j : Fin 4) :
    ((vdExpireTickets broker now).sessions j = { broker.sessions j with ticket := zeroTicket }) ∨
      ((vdExpireTickets broker now).sessions j = broker.sessions j ∧
        ((broker.sessions j).active = true → (broker.sessions j).ticket.active = true →
          now < (broker.sessions j).ticket.expiresAtMs)) := by
  simp only [vdExpireTickets]
  split
  · exact Or.inl rfl
  · rename_i hk
    refine Or.inr ⟨rfl, fun ha ticket => ?_⟩
    simpa [ha, ticket, UInt64.not_le] using hk

theorem vdExpireTickets_retains (j : Fin 4) :
    Retains (broker.sessions j) ((vdExpireTickets broker now).sessions j) := by
  rcases vdExpireTickets_cases broker now j with hc | ⟨hk, _⟩
  · rw [hc]
    exact ⟨id, fun _ _ => id, nofun⟩
  · rw [hk]
    exact .refl _

theorem vdExpireTickets_active (j : Fin 4) :
    ((vdExpireTickets broker now).sessions j).active = (broker.sessions j).active := by
  rcases vdExpireTickets_cases broker now j with hc | ⟨hk, _⟩
  · rw [hc]
  · rw [hk]

theorem vdExpireTickets_valid {j : Fin 4} (ha : (broker.sessions j).active = true)
    (ht : ((vdExpireTickets broker now).sessions j).ticket.active = true) :
    now < ((vdExpireTickets broker now).sessions j).ticket.expiresAtMs := by
  rcases vdExpireTickets_cases broker now j with hc | ⟨hk, hv⟩
  · rw [hc] at ht
    cases ht
  · rw [hk] at ht ⊢
    exact hv ha ht

theorem handle_accounted (ha : Accounted w) (sessionId peerId : UInt64)
    (request : Bytes) (capacity : ℕ) (answers : Answers) :
    Accounted (w.handle sessionId peerId request capacity answers).1 := by
  change Accounted (w.apply answers.now
    (vdHandleRecordWithDeadline w.broker sessionId peerId request capacity answers))
  unfold vdHandleRecordWithDeadline
  split
  · exact ha
  split
  · exact ha
  split
  · exact ha
  rename_i hf
  have hac := vdFindSession_active hf
  have he : Accounted { w with broker := vdExpireTickets w.broker answers.now } :=
    ha.retains vdExpireTickets_retains
  have hs : ((vdExpireTickets w.broker answers.now).sessions _).active = true :=
    (vdExpireTickets_active _).trans hac
  split
  · exact vdHandleHello_accounted he hs
  split
  · exact vdHandleDiscover_accounted he hs
  · split
    · exact vdHandleRelease_accounted he hs (vdExpireTickets_valid hac)
    · exact refused_accounted he _

theorem vdAttachBrokerOpenSession_cases (broker : VdAttachBroker) (peerId now : UInt64)
    (entropy : Entropy) :
    (∃ after e, vdAttachBrokerOpenSession broker peerId now entropy = (after, .error e) ∧
      after.config = broker.config ∧ after.serviceGeneration = broker.serviceGeneration ∧
      (∀ j, Retains (broker.sessions j) (after.sessions j)) ∧
      ∀ j, (after.sessions j).active = true →
        (after.sessions j).serverNonce = (broker.sessions j).serverNonce) ∨
    ∃ i c n cs, vdAttachBrokerOpenSession broker peerId now entropy =
        ((vdExpireTickets broker now).set i ⟨true, false, c, peerId, n, [], zeroTicket⟩,
          .ok (i, c)) ∧
      ((vdExpireTickets broker now).sessions i).active = false ∧
      (drawFresh (vdMakeToken entropy)
        (vdServerNonceInUse ((vdExpireTickets broker now).set i zeroSession) i) 4 cs).1 =
        .ok n := by
  have hc (i : Fin 4) (j : Fin 4) : Retains (broker.sessions j)
      (((vdExpireTickets broker now).set i zeroSession).sessions j) := by
    by_cases hh : j = i
    · rw [hh, set_same]
      exact .of_inactive rfl
    · rw [set_other hh]
      exact vdExpireTickets_retains j
  have hn (j : Fin 4) : ((vdExpireTickets broker now).sessions j).serverNonce =
      (broker.sessions j).serverNonce := by
    rcases vdExpireTickets_cases broker now j with he | ⟨hk, _⟩
    · rw [he]
    · rw [hk]
  have hcn (i j : Fin 4)
      (ha : (((vdExpireTickets broker now).set i zeroSession).sessions j).active = true) :
      (((vdExpireTickets broker now).set i zeroSession).sessions j).serverNonce =
        (broker.sessions j).serverNonce := by
    by_cases hh : j = i
    · rw [hh, set_same] at ha
      cases ha
    · rw [set_other hh]
      exact hn j
  unfold vdAttachBrokerOpenSession
  split
  · exact Or.inl ⟨_, _, rfl, rfl, rfl, fun j => .refl _, fun _ _ => rfl⟩
  split
  · exact Or.inl ⟨_, _, rfl, rfl, rfl, fun j => .refl _, fun _ _ => rfl⟩
  dsimp only
  split
  · exact Or.inl ⟨_, _, rfl, rfl, rfl, vdExpireTickets_retains, fun j _ => hn j⟩
  rename_i i hf
  split
  · exact Or.inl ⟨_, _, rfl, rfl, rfl, hc i, hcn i⟩
  rename_i c cs hd
  split
  · exact Or.inl ⟨_, _, rfl, rfl, rfl, hc i, hcn i⟩
  · rename_i n _ hfr
    refine Or.inr ⟨i, c, n, cs, by rw [set_set], ?_, by rw [hfr]⟩
    simpa using List.find?_some hf

theorem openSession_accounted (ha : Accounted w) (peerId now : UInt64) (entropy : Entropy) :
    Accounted (w.openSession peerId now entropy) := by
  have he : Accounted { w with broker := vdExpireTickets w.broker now } :=
    ha.retains vdExpireTickets_retains
  unfold World.openSession
  rcases vdAttachBrokerOpenSession_cases w.broker peerId now entropy with
    ⟨after, e, run, _, _, hs, _⟩ | ⟨i, candidate, nonce, calls, run, hf, _⟩
  · rw [run]
    exact ha.retains hs
  · rw [run]
    exact he.opening hf rfl

theorem step_accounted (ha : Accounted w) (call : Call) : Accounted (w.step call) := by
  cases call with
  | openSession pi now e => exact openSession_accounted ha pi now e
  | handleRecord si pi rq cp answers =>
    exact handle_accounted ha si pi rq cp answers
  | closeSession si pi =>
    refine ha.retains fun j => ?_
    unfold vdAttachBrokerCloseSession
    split
    · exact .refl _
    · exact retains_set (.of_inactive rfl) j
  | shutdown => exact ha.retains fun j => .of_inactive rfl

theorem run_accounted (ha : Accounted w) (cs : List Call) : Accounted (w.run cs) := by
  induction cs generalizing w with
  | nil => exact ha
  | cons call cs ih => exact ih (step_accounted ha call)

end Calls

end VitaDebugger.BrokerTickets
