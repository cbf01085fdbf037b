import VitaDebugger.ProfilerEvent

/-! The profiler's name dictionary: registration by FNV-1a identifier, sealing, the wire
block of a sealed dictionary and its validator. -/

namespace VitaDebugger.NameDictionary
open LittleEndian ProfilerEvent

abbrev nameWireMagic : UInt32 := 0x4d4e5056
abbrev nameWireVersion : UInt16 := 1
abbrev nameWireHeaderSize : ℕ := 24
abbrev nameWireEntryHeaderSize : ℕ := 8
abbrev nameWireFlagLittleEndian : UInt16 := 1
abbrev nameMaxLength : ℕ := 255
abbrev maxEntries : ℕ := 4096
abbrev builtinNameCount : ℕ := 8
abbrev nameFlagNone : UInt16 := 0
abbrev nameFlagBuiltin : UInt16 := 1

abbrev metricFreeUserBytes : UInt32 := 0xfff00001
abbrev metricInterruptPreemptions : UInt32 := 0xfff00008

/-- A name of the dictionary as `struct vp_name_view` shows it. -/
structure NameView where
  nameId : UInt32
  name : Bytes
  flags : UInt16
  deriving DecidableEq

def builtin (nameId : UInt32) (text : String) : NameView :=
  ⟨nameId, text.toUTF8.data.toList, nameFlagBuiltin⟩

def builtinNames : List NameView :=
  [builtin metricFreeUserBytes "vita.memory.free_user_bytes",
    builtin 0xfff00002 "vita.memory.free_cdram_bytes",
    builtin 0xfff00003 "vita.memory.free_phycont_bytes",
    builtin 0xfff00004 "vita.process.time_us",
    builtin 0xfff00005 "vita.thread.run_clocks",
    builtin 0xfff00006 "vita.thread.stack_free_bytes",
    builtin 0xfff00007 "vita.thread.preemptions",
    builtin metricInterruptPreemptions "vita.thread.interrupt_preemptions"]

def vpNameIdBytes (name : Bytes) : UInt32 :=
  let hash := name.foldl (fun hash byte => (hash ^^^ byte.toUInt32) * 16777619) 2166136261
  if hash = 0 then 1 else hash

/-- The length of a C string, the bytes from its address on, if it is not empty and ends
within the bound. -/
def vpBoundedNameLength (name : ℕ → UInt8) : Except VpError ℕ :=
  if name 0 = 0 then .error .invalidArgument
  else match (List.range (nameMaxLength + 1)).find? (fun i => name i = 0) with
    | some length => .ok length
    | none => .error .invalidArgument

def vpBuiltinIndex (nameId : UInt32) : Option ℕ :=
  if nameId < metricFreeUserBytes ∨ metricInterruptPreemptions < nameId then none
  else some (nameId - metricFreeUserBytes).toNat

structure NameEntry where
  nameId : UInt32
  textOffset : ℕ
  textLength : ℕ
  deriving DecidableEq

/-- `text` is the used part of the caller's text storage. -/
structure Dictionary where
  entries : List NameEntry
  text : Bytes
  entryCapacity : ℕ
  textCapacity : ℕ
  sealed : Bool
  deriving DecidableEq

def vpNameDictionaryInit (entryCapacity textCapacity : ℕ) : Except VpError Dictionary :=
  if maxEntries < entryCapacity ∨ (entryCapacity ≠ 0 ∧ textCapacity = 0) then
    .error .invalidArgument
  else .ok ⟨[], [], entryCapacity, textCapacity, false⟩

namespace Dictionary
variable (d : Dictionary)

def nameIdAt (index : ℕ) : UInt32 := (d.entries.getD index ⟨0, 0, 0⟩).nameId

def lowerBoundLoop (nameId : UInt32) : ℕ → ℕ → ℕ → ℕ
  | 0, first, _ => first
  | fuel + 1, first, count =>
    if count = 0 then first
    else
      let step := count / 2
      let middle := first + step
      if d.nameIdAt middle < nameId then
        lowerBoundLoop nameId fuel (middle + 1) (count - (step + 1))
      else lowerBoundLoop nameId fuel first step

def vpUserLowerBound (nameId : UInt32) : ℕ :=
  d.lowerBoundLoop nameId d.entries.length 0 d.entries.length

def entryText (entry : NameEntry) : Bytes :=
  (d.text.drop entry.textOffset).take entry.textLength

/-- A new entry at its place in the order of the identifiers. -/
def insert (index : ℕ) (id : UInt32) (text : Bytes) : Except VpError (Dictionary × UInt32) :=
  if d.entries.length = d.entryCapacity ∨ d.textCapacity - d.text.length < text.length + 1 then
    .error .capacity
  else .ok ({ d with
        entries := d.entries.take index ++ ⟨id, d.text.length, text.length⟩ :: d.entries.drop index
        text := d.text ++ (text ++ [0]) }, id)

/-- The registration of a name of the permitted length. -/
def registerText (text : Bytes) : Except VpError (Dictionary × UInt32) :=
  let id := vpNameIdBytes text
  if (vpBuiltinIndex id).isSome then .error .nameConflict
  else
    let index := d.vpUserLowerBound id
    match d.entries[index]? with
    | some entry =>
      if entry.nameId = id then
        if entry.textLength ≠ text.length ∨ d.entryText entry ≠ text then .error .nameConflict
        else .ok (d, id)
      else d.insert index id text
    | none => d.insert index id text

/-- The dictionary and the identifier after `vp_name_dictionary_register`. -/
def vpNameDictionaryRegister (name : Option (ℕ → UInt8)) : Except VpError (Dictionary × UInt32) :=
  if d.sealed then .error .sealed
  else match name with
    | none => .error .invalidArgument
    | some name =>
      match vpBoundedNameLength name with
      | .error e => .error e
      | .ok length => d.registerText ((List.range length).map name)

def vpNameDictionarySeal : Dictionary := { d with sealed := true }

def userViews : List NameView :=
  d.entries.map fun entry => ⟨entry.nameId, d.entryText entry, nameFlagNone⟩

end Dictionary

/-- The next name of the user's and the built-in ones that are left. -/
def vpMergedView : List NameView → List NameView →
    Option (NameView × List NameView × List NameView)
  | [], [] => none
  | user :: users, [] => some (user, users, [])
  | [], builtin :: builtins => some (builtin, [], builtins)
  | user :: users, builtin :: builtins =>
    if user.nameId < builtin.nameId then some (user, users, builtin :: builtins)
    else some (builtin, user :: users, builtins)

def mergedViews : ℕ → List NameView → List NameView → List NameView
  | 0, _, _ => []
  | fuel + 1, users, builtins =>
    match vpMergedView users builtins with
    | none => []
    | some (view, users, builtins) => view :: mergedViews fuel users builtins

def vpPaddedNameSize (nameLength : UInt16) : UInt32 := (nameLength.toUInt32 + 3) &&& ~~~3

namespace Dictionary

def views (d : Dictionary) : List NameView :=
  mergedViews (d.entries.length + builtinNameCount) d.userViews builtinNames

end Dictionary

def entrySize (view : NameView) : ℕ :=
  nameWireEntryHeaderSize + (vpPaddedNameSize (.ofNat view.name.length)).toNat

def vpNameDictionaryWireSize (d : Dictionary) : Except VpError ℕ :=
  if d.sealed = false then .error .sealed
  else
    let total := nameWireHeaderSize + (d.userViews.map entrySize).sum +
      (builtinNames.map entrySize).sum
    if 0xffffffff < total then .error .capacity else .ok total

def encodeEntry (view : NameView) : Bytes :=
  let padded := (vpPaddedNameSize (.ofNat view.name.length)).toNat
  writeU32Le view.nameId ++ (writeU16Le (.ofNat view.name.length) ++ (writeU16Le view.flags ++
    (view.name ++ List.replicate (padded - view.name.length) 0)))

def vpEncodeNameDictionaryLe (d : Dictionary) (outputCapacity : ℕ) : Except VpError Bytes := do
  let required ← vpNameDictionaryWireSize d
  if outputCapacity < required then .error .bufferTooSmall
  else
    let entryCount := d.entries.length + builtinNameCount
    .ok (writeU32Le nameWireMagic ++ (writeU16Le nameWireVersion ++
      (writeU16Le (.ofNat nameWireHeaderSize) ++ (writeU16Le (.ofNat nameWireEntryHeaderSize) ++
        (writeU16Le nameWireFlagLittleEndian ++ (writeU32Le (.ofNat entryCount) ++
          (writeU32Le (.ofNat required) ++ (writeU32Le 0 ++ d.views.flatMap encodeEntry))))))))

/-- The mask of built-in names seen, after one more name. -/
def vpValidateWireName (nameId : UInt32) (flags : UInt16) (name : Bytes)
    (builtinMask : UInt32) : Except VpError UInt32 :=
  if name.any (· = 0) then .error .malformed
  else match vpBuiltinIndex nameId with
    | some builtin =>
      let expected := builtinNames.getD builtin ⟨0, [], 0⟩
      if flags ≠ nameFlagBuiltin ∨ name.length ≠ expected.name.length ∨ name ≠ expected.name then
        .error .malformed
      else .ok (builtinMask ||| 1 <<< UInt32.ofNat builtin)
    | none =>
      if flags ≠ nameFlagNone ∨ vpNameIdBytes name ≠ nameId then .error .malformed
      else .ok builtinMask

/-- What the loop over the entries carries from one to the next. -/
structure EntryScan where
  offset : ℕ
  previousId : UInt32
  builtinMask : UInt32

def validateEntry (input : Bytes) (totalSize : ℕ) (first : Bool) (s : EntryScan) :
    Except VpError EntryScan :=
  if totalSize < s.offset ∨ totalSize - s.offset < nameWireEntryHeaderSize then .error .malformed
  else
    let nameId := readU32Le input s.offset
    let nameLength := readU16Le input (s.offset + 4)
    let nameFlags := readU16Le input (s.offset + 6)
    let padded := (vpPaddedNameSize nameLength).toNat
    if nameId = 0 ∨ nameLength = 0 ∨ nameMaxLength < nameLength.toNat ∨
        (first = false ∧ nameId ≤ s.previousId) ∨
        totalSize - s.offset - nameWireEntryHeaderSize < padded then .error .malformed
    else
      let text := s.offset + nameWireEntryHeaderSize
      match vpValidateWireName nameId nameFlags ((input.drop text).take nameLength.toNat)
          s.builtinMask with
      | .error e => .error e
      | .ok builtinMask =>
        if ((input.drop (text + nameLength.toNat)).take (padded - nameLength.toNat)).any
          (· ≠ 0) then
          .error .malformed
        else .ok ⟨text + padded, nameId, builtinMask⟩

def validateEntries (input : Bytes) (totalSize : ℕ) :
    ℕ → Bool → EntryScan → Except VpError EntryScan
  | 0, _, s => .ok s
  | remaining + 1, first, s =>
    match validateEntry input totalSize first s with
    | .error e => .error e
    | .ok s => validateEntries input totalSize remaining false s

/-- The total size that a valid block states. -/
def vpNameWireValidateLe (input : Bytes) : Except VpError ℕ :=
  if input.length < nameWireHeaderSize then .error .malformed
  else if readU32Le input 0 ≠ nameWireMagic then .error .malformed
  else if readU16Le input 4 ≠ nameWireVersion then .error .unsupported
  else if readU16Le input 6 ≠ .ofNat nameWireHeaderSize ∨
      readU16Le input 8 ≠ .ofNat nameWireEntryHeaderSize then .error .unsupported
  else if readU16Le input 10 ≠ nameWireFlagLittleEndian then .error .unsupported
  else
    let entryCount := (readU32Le input 12).toNat
    let totalSize := (readU32Le input 16).toNat
    if readU32Le input 20 ≠ 0 ∨ entryCount < builtinNameCount ∨
        maxEntries + builtinNameCount < entryCount ∨ totalSize < nameWireHeaderSize ∨
        input.length < totalSize ∨
        (totalSize - nameWireHeaderSize) / (nameWireEntryHeaderSize + 4) < entryCount then
      .error .malformed
    else match validateEntries input totalSize entryCount true ⟨nameWireHeaderSize, 0, 0⟩ with
      | .error e => .error e
      | .ok s =>
        if s.offset ≠ totalSize ∨ s.builtinMask ≠ ((1 : UInt32) <<< 8) - 1 then .error .malformed
        else .ok totalSize

/-- A cursor over the entries of a block that was found valid. -/
structure NameCursor where
  data : Bytes
  totalSize : ℕ
  offset : ℕ
  remaining : ℕ

def vpNameWireCursorInit (input : Bytes) : Except VpError NameCursor :=
  match vpNameWireValidateLe input with
  | .error e => .error e
  | .ok totalSize => .ok ⟨input, totalSize, nameWireHeaderSize, (readU32Le input 12).toNat⟩

/-- The next name, or nothing after the last. -/
def vpNameWireCursorNext (cursor : NameCursor) : Except VpError (Option (NameView × NameCursor)) :=
  let data := cursor.data
  let offset := cursor.offset
  if cursor.remaining = 0 then .ok none
  else if cursor.totalSize < offset ∨ cursor.totalSize - offset < nameWireEntryHeaderSize then
    .error .malformed
  else
    let length := readU16Le data (offset + 4)
    let padded := (vpPaddedNameSize length).toNat
    if cursor.totalSize - offset - nameWireEntryHeaderSize < padded then .error .malformed
    else .ok (some (⟨readU32Le data offset,
        (data.drop (offset + nameWireEntryHeaderSize)).take length.toNat,
        readU16Le data (offset + 6)⟩,
      { cursor with
        offset := offset + nameWireEntryHeaderSize + padded
        remaining := cursor.remaining - 1 }))

/-- The names that a cursor still has to show. -/
def cursorViews : ℕ → NameCursor → List NameView
  | 0, _ => []
  | fuel + 1, cursor =>
    match vpNameWireCursorNext cursor with
    | .ok (some (view, cursor)) => view :: cursorViews fuel cursor
    | _ => []

/-- The names of a wire block. -/
def wireViews (input : Bytes) : List NameView :=
  match vpNameWireCursorInit input with
  | .ok cursor => cursorViews cursor.remaining cursor
  | .error _ => []

end VitaDebugger.NameDictionary
