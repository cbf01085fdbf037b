import VitaDebugger.DebugSession
import VitaDebugger.RspFrame
import VitaDebugger.VCont

/-! The receive buffer between a resume packet and the next stop reply. The packet is overwritten
in place with a status query; what it leaves behind the query is in the buffer when the stop reply
waits for its acknowledgement. -/

namespace VitaDebugger.StopReply
open AtomicProgram RspHex RspFrame ThreadControl DebugSession List Option
open BreakpointTable (emptyTable)
open MemoryTransaction (memoryTransactionInit)

/-- The plan of a resume packet: `vCont`, or `c` and `s` with an optional address. -/
def resumePlan (d : Debugger) (packet : Bytes) : Option ResumePlan :=
  if packet.take vcontHead.length = vcontHead then vcontPlan packet d.inventory
  else match packet with
    | [] => none
    | letter :: operand =>
      if letter = 99 ∨ letter = 115 then legacyPlan d (letter == 115) operand else none

/-- The packet is planned and the plan is applied. -/
def Accepted (d : Debugger) (packet : Bytes) : Prop :=
  ∃ plan d', resumePlan d packet = some plan ∧
    Prog.Ends (applyResumePlan plan (decide (packet.take vcontHead.length ≠ vcontHead ∧
      1 < packet.length))) d 0 d'

/-- A packet that `recv_packet` hands out: its place in the buffer, and the buffer with the byte
behind it cleared. -/
def recvPacket (maximum : ℕ) (buffer : Bytes) : Option (ℕ × ℕ × Bytes) :=
  match rspScanFrame buffer maximum with
  | (.complete, frame) => some (frame.payloadOffset, frame.payloadSize,
      buffer.set (frame.payloadOffset + frame.payloadSize) 0)
  | _ => none

/-- `?#3f` -/
def statusQuery : Bytes := [63, 35, 51, 102]

def finishResumePacket (buffer : Bytes) (packet : ℕ) : Bytes :=
  buffer.take packet ++ statusQuery ++ buffer.drop (packet + statusQuery.length)

def discardPacket (buffer : Bytes) (packet size : ℕ) : Option Bytes :=
  if buffer.length < packet then none
  else if buffer.length - packet < size ∨ buffer.length - packet - size < 3 then none
  else some (buffer.drop (packet + size + 3))

inductive ReplyOutcome where
  | acknowledged (buffer : Bytes)
  | refused
  | lost
  | waiting
  deriving DecidableEq

/-- The scan of one filled buffer: the first mark, and what is behind an acknowledgement. -/
def scanMarks : Bytes → Option ReplyOutcome
  | [] => none
  | byte :: rest =>
    if byte = 43 then some (.acknowledged rest)
    else if byte = 45 then some .refused
    else scanMarks rest

/-- The wait for the acknowledgement. A poll brings bytes or fails. -/
def awaitMark (buffer : Bytes) : List (Option Bytes) → ReplyOutcome
  | [] => (scanMarks buffer).getD .waiting
  | none :: _ => (scanMarks buffer).getD .lost
  | some bytes :: polls =>
    match scanMarks buffer with
    | some outcome => outcome
    | none => awaitMark bytes polls

/-- What the environment does at a stop. -/
structure StopAnswers where
  refreshed : Bool
  flushed : Bool
  polls : List (Option Bytes)

/-- The reply is out before the wait starts. Without acknowledgements there is none. -/
def sendPacketTraced (noAck : Bool) (buffer : Bytes) (answers : StopAnswers) : ReplyOutcome :=
  if answers.flushed = false then .lost
  else if noAck then .acknowledged buffer
  else awaitMark buffer answers.polls

def handleStatusQuery (noAck : Bool) (buffer : Bytes) (packet size : ℕ)
    (answers : StopAnswers) : ReplyOutcome :=
  if answers.refreshed = false then .lost
  else match discardPacket buffer packet size with
    | none => .lost
    | some buffer => sendPacketTraced noAck buffer answers

/-- The first packet the loop serves after a stop. -/
def serveStop (maximum : ℕ) (noAck : Bool) (buffer : Bytes) (answers : StopAnswers) :
    Option ReplyOutcome :=
  match recvPacket maximum buffer with
  | none => none
  | some (packet, size, buffer) =>
    if (buffer.drop packet).take size = [63] then
      some (handleStatusQuery noAck buffer packet size answers)
    else none

/-- What the peer sends before a poll fails. -/
def received : List (Option Bytes) → Bytes
  | [] => []
  | none :: _ => []
  | some bytes :: polls => bytes ++ received polls

/-- The first acknowledgement or refusal in a text. -/
def firstMark (text : Bytes) : Option UInt8 := text.find? fun byte => byte = 43 ∨ byte = 45

/-- Neither an acknowledgement nor a refusal. -/
def Unmarked (text : Bytes) : Prop := ∀ byte ∈ text, byte ≠ 43 ∧ byte ≠ 45

def ReplyOutcome.succeeds : ReplyOutcome → Bool
  | .acknowledged _ => true
  | _ => false

section Marks
variable {text rest : Bytes}

theorem firstMark_append (hu : Unmarked text) (rest : Bytes) :
    firstMark (text ++ rest) = firstMark rest := by
  have hn : text.find? (fun b => b = 43 ∨ b = 45) = none := by
    rw [List.find?_eq_none]
    intro b mem
    simpa using hu b mem
  rw [firstMark, List.find?_append, hn]
  rfl

theorem firstMark_marked (marked : ¬Unmarked text) :
    ∃ mark, (mark = 43 ∨ mark = 45) ∧ ∀ rest, firstMark (text ++ rest) = some mark := by
  induction text with
  | nil => exact absurd (by simp [Unmarked]) marked
  | cons byte text ih =>
    by_cases found : byte = 43 ∨ byte = 45
    · exact ⟨byte, found, fun rest => by simp [firstMark, found]⟩
    have none : Unmarked [byte] := by simpa [Unmarked, not_or] using found
    have later : ¬Unmarked text := fun quiet => marked (forall_mem_append.mpr ⟨none, quiet⟩)
    obtain ⟨mark, kind, all⟩ := ih later
    refine ⟨mark, kind, fun rest => ?_⟩
    rw [cons_append, ← singleton_append, firstMark_append none, all]

theorem scanMarks_none (hs : scanMarks text = none) : Unmarked text := by
  induction text with
  | nil => nofun
  | cons byte text ih =>
    rw [scanMarks] at hs
    split at hs
    · cases hs
    next hp =>
    split at hs
    · cases hs
    next hm => exact forall_mem_cons.mpr ⟨⟨hp, hm⟩, ih hs⟩

theorem scanMarks_some {o : ReplyOutcome} (hs : scanMarks text = some o)
    (rest : Bytes) :
    o.succeeds = true ↔ firstMark (text ++ rest) = some 43 := by
  induction text with
  | nil => cases hs
  | cons byte text ih =>
    rw [scanMarks] at hs
    split at hs
    · next hp =>
      cases hs
      simp [ReplyOutcome.succeeds, firstMark, hp]
    next hp =>
    split at hs
    · next hm =>
      cases hs
      simp [ReplyOutcome.succeeds, firstMark, hm]
    next hm =>
    have ho : Unmarked [byte] := by simp [Unmarked, hp, hm]
    rw [cons_append, ← singleton_append, firstMark_append ho]
    exact ih hs

theorem awaitMark_succeeds (buffer : Bytes) (ps : List (Option Bytes)) :
    (awaitMark buffer ps).succeeds = true ↔ firstMark (buffer ++ received ps) = some 43 := by
  induction ps generalizing buffer with
  | nil =>
    cases hs : scanMarks buffer with
    | none =>
      rw [firstMark_append (scanMarks_none hs)]
      simp [awaitMark, hs, ReplyOutcome.succeeds, received, firstMark]
    | some o =>
      rw [← scanMarks_some hs, awaitMark, hs]
      rfl
  | cons poll ps ih =>
    cases hs : scanMarks buffer with
    | none =>
      rw [firstMark_append (scanMarks_none hs)]
      cases poll with
      | none => simp [awaitMark, hs, ReplyOutcome.succeeds, received, firstMark]
      | some bs =>
        rw [awaitMark, hs]
        exact ih bs
    | some o =>
      rw [← scanMarks_some hs]
      cases poll <;> simp [awaitMark, hs]

end Marks

section Unmarked
variable {text rest : Bytes}

theorem Unmarked.append (hf : Unmarked text) (hs : Unmarked rest) :
    Unmarked (text ++ rest) := forall_mem_append.mpr ⟨hf, hs⟩

theorem Unmarked.drop (hu : Unmarked text) (n : ℕ) : Unmarked (text.drop n) :=
  fun byte mem => hu byte (mem_of_mem_drop mem)

theorem hex_unmarked {byte : UInt8} (hd : hexValue byte ≠ none) : byte ≠ 43 ∧ byte ≠ 45 := by
  constructor
  · intro hp
    rw [hp] at hd
    exact hd rfl
  · intro hm
    rw [hm] at hd
    exact hd rfl

theorem operand_unmarked (hp : rspParseU32Hex text ≠ none) : Unmarked text := by
  have hn : text ≠ [] := by
    intro he
    simp [rspParseU32Hex, he] at hp
  have hsh : text.length ≤ 8 := by
    by_contra hl
    simp [rspParseU32Hex, not_le.mp hl] at hp
  rw [VCont.rspParseU32Hex_eq hn hsh, ne_eq, map_eq_none_iff] at hp
  obtain ⟨digits, hs⟩ := ne_none_iff_exists'.mp hp
  intro byte mem
  refine hex_unmarked fun hu => ?_
  exact VCont.not_mem_of_mapM hu hs mem

theorem legacyPlan_unmarked {d : Debugger} {s : Bool} {plan : ResumePlan}
    (hp : legacyPlan d s text = some plan) : Unmarked text := by
  by_cases he : text = []
  · rw [he]
    nofun
  apply operand_unmarked
  intro hm
  rw [legacyPlan, if_pos ⟨he, .inl hm⟩] at hp
  cases hp

/-- What an accepted packet leaves behind the query, other than a `vCont` packet. -/
theorem accepted_unmarked {d : Debugger} {packet : Bytes} (ha : Accepted d packet) :
    packet ≠ [] ∧ (packet.take vcontHead.length = vcontHead ∨ Unmarked (packet.drop 4)) := by
  obtain ⟨plan, d', hp, -⟩ := ha
  unfold resumePlan at hp
  split at hp
  · next hv =>
    refine ⟨?_, .inl hv⟩
    intro he
    rw [he] at hv
    cases hv
  split at hp
  · cases hp
  next letter operand ho =>
  split at hp
  · exact ⟨cons_ne_nil _ _, .inr ((legacyPlan_unmarked hp).drop 3)⟩
  · cases hp

end Unmarked

section Stop
variable {m packet size : ℕ} {buffer held : Bytes}

theorem recvPacket_packet {payload : Bytes} {high low : UInt8} {rest : Bytes}
    (layout : Packet buffer payload high low rest) (fits : payload.length ≤ m) :
    recvPacket m buffer =
      some (1, payload.length, 36 :: (payload ++ 0 :: high :: low :: rest)) := by
  rw [recvPacket, layout.complete fits, layout.bytes]
  dsimp only
  rw [Nat.add_comm, set_cons_succ, set_append_right _ _ (Nat.le_refl _), Nat.sub_self]
  rfl

theorem drop_packet {payload : Bytes} {high low : UInt8} {rest : Bytes}
    (layout : Packet buffer payload high low rest) :
    buffer.drop (1 + payload.length + 3) = rest := by
  have length : 1 + payload.length + 3 = payload.length + 1 + 1 + 1 + 1 := by omega
  rw [layout.bytes, length]
  simp

theorem recvPacket_layout (taken : recvPacket m buffer = some (packet, size, held)) :
    ∃ payload high low rest, Packet buffer payload high low rest ∧ packet = 1 ∧
      size = payload.length ∧ size ≤ m ∧ held = 36 :: (payload ++ 0 :: high :: low :: rest) := by
  have scanned := taken
  unfold recvPacket at scanned
  split at scanned
  · next frame complete =>
    obtain ⟨payload, high, low, rest, layout, fits, rfl⟩ := rspScanFrame_complete_iff.mp complete
    rw [recvPacket_packet layout fits] at taken
    cases taken
    exact ⟨payload, high, low, rest, layout, rfl, rfl, fits, rfl⟩
  · cases scanned

theorem recvPacket_query (fits : 1 ≤ m) (rest : Bytes) :
    recvPacket m (36 :: (statusQuery ++ rest)) =
      some (1, 1, 36 :: 63 :: 0 :: 51 :: 102 :: rest) := by
  have layout : Packet (36 :: (statusQuery ++ rest)) [63] 51 102 rest :=
    ⟨rfl, ⟨by decide, by decide, rfl⟩, 3, 15, by decide, by decide, by decide⟩
  exact recvPacket_packet layout fits

section Held
variable {payload : Bytes} (filled : payload ≠ []) (high low : UInt8) (rest : Bytes)
include filled

theorem finishResumePacket_held :
    finishResumePacket (36 :: (payload ++ 0 :: high :: low :: rest)) 1 =
      36 :: (statusQuery ++ ((payload ++ [0, high, low]).drop 4 ++ rest)) := by
  have hl := length_pos_of_ne_nil filled
  have hw : payload ++ 0 :: high :: low :: rest = payload ++ [0, high, low] ++ rest := by simp
  rw [hw, finishResumePacket, take_succ_cons, take_zero]
  change 36 :: (statusQuery ++ List.drop 4 _) = _
  rw [drop_append_of_le_length (by simp; omega)]

/-- The query is popped, and what was left of the packet comes first. -/
theorem serveStop_held (fits : 1 ≤ m) (answers : StopAnswers) : ∃ outcome,
    serveStop m false (finishResumePacket (36 :: (payload ++ 0 :: high :: low :: rest)) 1) answers =
      some outcome ∧
    (outcome.succeeds = true ↔ answers.refreshed = true ∧ answers.flushed = true ∧
      firstMark ((payload ++ [0, high, low]).drop 4 ++ (rest ++ received answers.polls)) =
        some 43) := by
  rw [finishResumePacket_held filled, serveStop, recvPacket_query fits]
  refine ⟨_, if_pos rfl, ?_⟩
  have popped : discardPacket (36 :: 63 :: 0 :: 51 :: 102 ::
      ((payload ++ [0, high, low]).drop 4 ++ rest)) 1 1 =
        some ((payload ++ [0, high, low]).drop 4 ++ rest) := by
    simp [discardPacket]
  simp only [handleStatusQuery, popped, sendPacketTraced]
  cases answers.refreshed with
  | false => simp [ReplyOutcome.succeeds]
  | true =>
    cases answers.flushed with
    | false => simp [ReplyOutcome.succeeds]
    | true =>
      have marks := awaitMark_succeeds ((payload ++ [0, high, low]).drop 4 ++ rest) answers.polls
      rw [append_assoc] at marks
      simpa using marks

end Held

end Stop

/-- The stop reply after an accepted resume packet succeeds exactly when the first mark the peer
sends behind the packet is an acknowledgement, whatever the peer sends, if and only if a `vCont`
packet leaves no mark of its own. -/
theorem stop_reply_succeeds (d : Debugger) (maximum : ℕ) (payload : Bytes)
    (receivable : ∃ buffer packet size held, recvPacket maximum buffer = some (packet, size, held) ∧
      (held.drop packet).take size = payload)
    (accepted : Accepted d payload) :
    (∀ buffer packet size held answers, recvPacket maximum buffer = some (packet, size, held) →
      (held.drop packet).take size = payload →
      ∃ outcome, serveStop maximum false (finishResumePacket held packet) answers = some outcome ∧
        (outcome.succeeds = true ↔ answers.refreshed = true ∧ answers.flushed = true ∧
          firstMark (buffer.drop (packet + size + 3) ++ received answers.polls) = some 43)) ↔
    (payload.take vcontHead.length = vcontHead → Unmarked (payload.drop 4)) := by
  obtain ⟨filled, known⟩ := accepted_unmarked accepted
  have taken (text : Bytes) (high low : UInt8) (rest : Bytes) :
      ((36 :: (text ++ 0 :: high :: low :: rest)).drop 1).take text.length = text := take_left' rfl
  constructor
  · intro right vcont
    obtain ⟨buffer, packet, size, held, got, rfl⟩ := receivable
    obtain ⟨text, high, low, rest, layout, rfl, rfl, fits, rfl⟩ := recvPacket_layout got
    rw [taken] at right vcont filled ⊢
    by_contra marked
    obtain ⟨mark, kind, first⟩ := firstMark_marked marked
    -- the peer answers with the other mark
    have alone : Packet (36 :: (text ++ 35 :: high :: low :: [])) text high low [] :=
      ⟨rfl, layout.runs, layout.sum⟩
    have long := length_pos_of_ne_nil filled
    have small : 1 ≤ maximum := by omega
    obtain ⟨outcome, served, expected⟩ := right _ _ _ _ ⟨true, true, [some [88 - mark]]⟩
      (recvPacket_packet alone fits) (taken text high low [])
    obtain ⟨outcome', served', marks⟩ :=
      serveStop_held filled high low [] small ⟨true, true, [some [88 - mark]]⟩
    cases served.symm.trans served'
    rw [drop_append, append_assoc, first] at marks
    rw [marks, drop_packet alone] at expected
    rcases kind with rfl | rfl <;> simp [received, firstMark] at expected
  · intro quiet buffer packet size held answers got same
    have unmarked : Unmarked (payload.drop 4) := known.elim quiet id
    obtain ⟨text, high, low, rest, layout, rfl, rfl, fits, rfl⟩ := recvPacket_layout got
    rw [taken] at same
    subst same
    obtain ⟨h, l, highDigit, lowDigit, -⟩ := layout.sum
    have long := length_pos_of_ne_nil filled
    have small : 1 ≤ maximum := by omega
    obtain ⟨outcome, served, marks⟩ := serveStop_held filled high low rest small answers
    have left : Unmarked ((text ++ [0, high, low]).drop 4) := by
      rw [drop_append]
      refine unmarked.append (Unmarked.drop ?_ _)
      simp [Unmarked, hex_unmarked (ne_none_iff_exists'.mpr ⟨h, highDigit⟩),
        hex_unmarked (ne_none_iff_exists'.mpr ⟨l, lowDigit⟩)]
    rw [firstMark_append left] at marks
    exact ⟨outcome, served, by rwa [drop_packet layout]⟩

/-- Stopped in thread 1, with nothing installed. -/
def stoppedDebugger : Debugger where
  live := ⟨emptyTable fun _ => 0, none, memoryTransactionInit none 0, []⟩
  stopToken := 1
  stopFailed := false
  targetStopped := true
  connected := true
  ioFailed := false
  selection := threadSelectionReset
  inventory := [1]
  exceptionThread := 1
  asyncStopPending := false
  asyncStopCancelled := false
  helpers := ⟨fun _ => false, fun _ => false⟩
  serving := true
  releases := []

theorem continue_accepted {packet : Bytes} (hv : packet.take vcontHead.length = vcontHead)
    (hp : resumePlan stoppedDebugger packet = some ⟨.continue, -1, .process⟩) :
    Accepted stoppedDebugger packet := by
  have he := Prog.ends_run (applyResumePlan ⟨.continue, -1, .process⟩ false)
    (fun _ => ⟨BreakpointPatch.quiet, 0, none, none, false⟩) stoppedDebugger
  have ha : decide (packet.take vcontHead.length ≠ vcontHead ∧ 1 < packet.length) = false :=
    decide_eq_false fun ho => ho.1 hv
  exact ⟨_, _, hp, ha ▸ he⟩

/-- `vCont;c:1`, then an acknowledgement. -/
theorem stop_reply_succeeds_named :
    let buffer : Bytes := [36, 118, 67, 111, 110, 116, 59, 99, 58, 49, 35, 49, 51]
    ∃ held o, recvPacket 4092 buffer = some (1, 9, held) ∧
      serveStop 4092 false (finishResumePacket held 1) ⟨true, true, [some [43]]⟩ = some o ∧
      o.succeeds = true := by
  intro buffer
  have ht : recvPacket 4092 buffer = some (1, 9, buffer.set 10 0) := by decide
  have hta : Unmarked [116, 59, 99, 58, 49] := by simp [Unmarked]
  obtain ⟨o, hse, hs⟩ := (stop_reply_succeeds stoppedDebugger 4092 _ ⟨buffer, 1, 9, _, ht, rfl⟩
    (continue_accepted (by decide) (by decide))).mpr (fun _ => hta) buffer 1 9 _
      ⟨true, true, [some [43]]⟩ ht rfl
  exact ⟨_, o, ht, hse, hs.mpr (by decide)⟩

/-- `vCont;c:-1` leaves a minus sign in the buffer, and the acknowledged reply fails. -/
theorem stop_reply_refused :
    let buffer : Bytes := [36, 118, 67, 111, 110, 116, 59, 99, 58, 45, 49, 35, 52, 48]
    ∃ held, recvPacket 4092 buffer = some (1, 10, held) ∧
      Accepted stoppedDebugger ((held.drop 1).take 10) ∧ buffer.drop (1 + 10 + 3) = [] ∧
      serveStop 4092 false (finishResumePacket held 1) ⟨true, true, [some [43]]⟩ = some .refused :=
  ⟨_, rfl, continue_accepted (by decide) (by decide), rfl, by decide⟩

end VitaDebugger.StopReply
