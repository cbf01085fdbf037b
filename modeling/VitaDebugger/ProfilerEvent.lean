import VitaDebugger.LittleEndian

/-! Events of the profiler and their wire form. -/

namespace VitaDebugger.ProfilerEvent
open LittleEndian

/-- The failures of `enum vp_result`. -/
inductive VpError where
  | invalidArgument
  | capacity
  | nameConflict
  | sealed
  | bufferTooSmall
  | malformed
  | unsupported
  | state
  | busy
  | io
  deriving DecidableEq

/-- `struct vp_event`. -/
structure Event where
  timestampUs : UInt64
  value : Int64
  nameId : UInt32
  threadId : UInt32
  correlationId : UInt32
  type : UInt16
  flags : UInt16
  deriving DecidableEq

def zeroEvent : Event := ⟨0, 0, 0, 0, 0, 0, 0⟩

abbrev wireEventSize : ℕ := 32

def vpEncodeEventLe (event : Event) : Bytes :=
  writeU64Le event.timestampUs ++ (writeU64Le event.value.toUInt64 ++ (writeU32Le event.nameId ++
    (writeU32Le event.threadId ++ (writeU32Le event.correlationId ++ (writeU16Le event.type ++
      writeU16Le event.flags)))))

def vpDecodeI64Le (input : Bytes) (offset : ℕ) : Int64 :=
  let raw := readU64Le input offset
  if raw ≤ 0x7fffffffffffffff then raw.toInt64 else -1 - (0xffffffffffffffff - raw).toInt64

def vpDecodeEventLe (input : Bytes) : Except VpError Event :=
  if input.length < wireEventSize then .error .malformed
  else .ok
    { timestampUs := readU64Le input 0
      value := vpDecodeI64Le input 8
      nameId := readU32Le input 16
      threadId := readU32Le input 20
      correlationId := readU32Le input 24
      type := readU16Le input 28
      flags := readU16Le input 30 }

theorem length_vpEncodeEventLe (e : Event) : (vpEncodeEventLe e).length = wireEventSize :=
  rfl

theorem vpDecodeI64Le_eq (i : Bytes) (o : ℕ) : vpDecodeI64Le i o = (readU64Le i o).toInt64 := by
  unfold vpDecodeI64Le
  dsimp only
  split
  · rfl
  · rw [UInt64.toInt64_sub]
    change -1 - (-1 - _) = _
    rw [Int64.sub_eq_iff_eq_add, Int64.add_comm, Int64.sub_add_cancel]

theorem vpDecodeEventLe_encode (e : Event) (rest : Bytes) :
    vpDecodeEventLe (vpEncodeEventLe e ++ rest) = .ok e := by
  have hl : ¬(vpEncodeEventLe e ++ rest).length < wireEventSize := by
    rw [List.length_append, length_vpEncodeEventLe]
    omega
  unfold vpDecodeEventLe
  rw [if_neg hl, vpDecodeI64Le_eq]
  simp [vpEncodeEventLe]

end VitaDebugger.ProfilerEvent
