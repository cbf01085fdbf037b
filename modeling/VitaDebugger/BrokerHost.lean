import Mathlib.Data.Int.Notation
import VitaDebugger.AsciiText
import VitaDebugger.Fallible
import VitaDebugger.LowerHex
import VitaDebugger.TraceDecoder

/-! The host side of the attach broker's records, `protocol.py` of `vdattach`: the parsers of
requests and of results. A `str` that was decoded from ASCII is its list of bytes; messages are
texts of their own. Errors are the texts of `ProtocolError`. -/

namespace VitaDebugger.BrokerHost
open AsciiText Fallible LowerHex
open TraceDecoder (UnicodeData decodeUtf8)

abbrev maxFrameSize : ℕ := 4096
abbrev minTicketLeaseMs : ℕ := 250
abbrev maxTicketLeaseMs : ℕ := 60000
abbrev knownCapabilities : ℕ := 15

def helloHeader : String := "VITADEBUG-ATTACH-HELLO-1"
def helloResultHeader : String := "VITADEBUG-ATTACH-HELLO-RESULT-1"
def discoverHeader : String := "VITADEBUG-ATTACH-DISCOVER-1"
def discoverResultHeader : String := "VITADEBUG-ATTACH-DISCOVER-RESULT-1"
def releaseHeader : String := "VITADEBUG-ATTACH-RELEASE-1"
def releaseResultHeader : String := "VITADEBUG-ATTACH-RELEASE-RESULT-1"

def helloKeys : List String :=
  ["request_id", "client_nonce", "mode", "expected_kernel_abi", "required_caps"]

def helloResultKeys : List String :=
  ["request_id", "client_nonce", "server_nonce", "service_generation", "state", "attach_caps",
    "kernel_abi", "kernel_caps", "ticket_lease_ms", "control_policy", "message"]

def discoverKeys : List String :=
  ["request_id", "server_nonce", "service_generation", "target_title_id", "mode"]

def discoverResultKeys : List String :=
  ["request_id", "server_nonce", "service_generation", "state", "target_title_id", "pid",
    "main_modid", "main_fingerprint", "target_generation", "target_ticket", "message"]

def releaseKeys : List String :=
  ["request_id", "server_nonce", "service_generation", "target_ticket"]

def releaseResultKeys : List String :=
  ["request_id", "server_nonce", "service_generation", "target_ticket", "state", "message"]

def discoveryStates : List Bytes :=
  [ascii "found", ascii "not_found", ascii "denied", ascii "changed", ascii "error"]

def releaseStates : List Bytes :=
  [ascii "released", ascii "missing", ascii "changed", ascii "error"]

section Values

def validateTitleId (value : Bytes) : Except String Bytes := do
  ensure (value.length = 9 ∧ value.all (fun c => decide (65 ≤ c ∧ c ≤ 90 ∨ 48 ≤ c ∧ c ≤ 57)) = true)
    "title ID must be exactly nine uppercase ASCII letters or digits"
  pure value

/-- `_hex_value`; the pattern `[0-9a-f]+` takes only texts that are not empty. -/
def hexNumber (value : Bytes) (digits : ℕ) (label : String) (allowZero : Bool) :
    Except String ℕ := do
  ensure (¬(value.length ≠ digits ∨ ¬(value ≠ [] ∧ value.all (fun c => decide (IsHex c)) = true)))
    (label ++ " must be exactly " ++ toString digits ++ " lowercase hexadecimal digits")
  ensure (¬(allowZero = false ∧ hexValue value = 0)) (label ++ " must not be zero")
  pure (hexValue value)

def token (value : Bytes) (digits : ℕ) (label : String) (allowZero : Bool) :
    Except String Bytes := do
  let _ ← hexNumber value digits label allowZero
  pure value

/-- `_hex_text` as the check it is in `_validate`: the number must fit its digits. -/
def checkRange (value digits : ℕ) (label : String) : Except String Unit :=
  ensure (value < 2 ^ (digits * 4))
    (label ++ " is outside its " ++ toString (digits * 4) ++ "-bit range")

def canonicalUint (value : Bytes) (label : String) (minimum maximum : ℕ) : Except String ℕ := do
  ensure (value = [48] ∨ ¬(value = [] ∨ value.head? = some 48 ∨
      value.all (fun c => decide (IsDigit c)) = false))
    (label ++ " is not canonical unsigned decimal")
  let number := if value = [48] then 0 else decimalValue value
  ensure (minimum ≤ number ∧ number ≤ maximum)
    (label ++ " must be from " ++ toString minimum ++ " through " ++ toString maximum)
  pure number

end Values

section Messages

def unsafeText : String := "message contains unsafe terminal or bidirectional controls"

def validateDisplayText (unicode : UnicodeData) (message : String) : Except String Unit :=
  ensure (message.toList.all unicode.safe = true) unsafeText

def alwaysSafe (byte : UInt8) : Bool :=
  decide (65 ≤ byte ∧ byte ≤ 90 ∨ 97 ≤ byte ∧ byte ≤ 122 ∨ 48 ≤ byte ∧ byte ≤ 57 ∨
    byte = 95 ∨ byte = 46 ∨ byte = 45 ∨ byte = 126)

def upperHexChar (nibble : UInt8) : UInt8 := if nibble < 10 then 48 + nibble else 55 + nibble

/-- `urllib.parse.quote_from_bytes` with the safe characters `-._~`. -/
def quoteFromBytes (bytes : Bytes) : Bytes := bytes.flatMap fun byte : UInt8 =>
    if alwaysSafe byte then [byte] else [37, upperHexChar (byte >>> 4), upperHexChar (byte &&& 15)]

def percentEncode (unicode : UnicodeData) (message : String) : Except String Bytes := do
  validateDisplayText unicode message
  let encoded := quoteFromBytes message.toUTF8.data.toList
  pure (if encoded = [] then ascii "%00" else encoded)

def anyCaseNibble (c : UInt8) : Option ℕ :=
  if 48 ≤ c ∧ c ≤ 57 then some (c.toNat - 48)
  else if 97 ≤ c ∧ c ≤ 102 then some (c.toNat - 87)
  else if 65 ≤ c ∧ c ≤ 70 then some (c.toNat - 55)
  else none

/-- What `int` strips from an ASCII text. -/
def Blank (c : UInt8) : Prop := c = 32 ∨ 9 ≤ c ∧ c ≤ 13

instance decidableBlank (c : UInt8) : Decidable (Blank c) := inferInstanceAs (Decidable (_ ∨ _))

/-- `int(text, 16)` on two characters: blanks around one digit, or a sign before it, are taken
as well; the minus sign leaves the range of a byte unless the digit is zero. -/
def escapeByte (first second : UInt8) : Option UInt8 :=
  match anyCaseNibble first, anyCaseNibble second with
  | some high, some low => some (UInt8.ofNat (high * 16 + low))
  | some high, none => if Blank second then some (UInt8.ofNat high) else none
  | none, some low =>
    if Blank first ∨ first = 43 then some (UInt8.ofNat low)
    else if first = 45 ∧ low = 0 then some 0
    else none
  | none, none => none

def percentBytes : Bytes → Except String Bytes
  | [] => .ok []
  | c :: rest =>
    if c = 37 then
      match rest with
      | first :: second :: rest =>
        match escapeByte first second with
        | none => .error "message has an invalid percent escape"
        | some byte => do
          let output ← percentBytes rest
          pure (byte :: output)
      | _ => .error "message has a truncated percent escape"
    else if c < 0x20 ∨ c > 0x7e then .error "message contains non-ASCII wire text"
    else do
      let output ← percentBytes rest
      pure (c :: output)

def percentDecode (unicode : UnicodeData) (value : Bytes) : Except String String :=
  if value = ascii "%00" then .ok ""
  else do
    let output ← percentBytes value
    match decodeUtf8 output with
    | none => .error "message is not valid percent-encoded UTF-8"
    | some message =>
      validateDisplayText unicode message
      let again ← percentEncode unicode message
      ensure (again = value) "message is not canonically percent-encoded"
      pure message

end Messages

section Records

/-- The dictionary of a record's values. -/
abbrev Values := List (String × Bytes)

def Values.get (values : Values) (key : String) : Bytes := (values.lookup key).getD []

def fieldValue (line : Bytes) (key label : String) : Except String Bytes := do
  ensure (line.take (ascii key ++ [61]).length = ascii key ++ [61])
    (label ++ " field order is invalid; expected " ++ key)
  ensure (line.drop (ascii key ++ [61]).length ≠ []) (label ++ " field " ++ key ++ " is empty")
  pure (line.drop (ascii key ++ [61]).length)

def parseLines (label : String) : List Bytes → List String → Except String Values
  | line :: lines, key :: keys => do
    let value ← fieldValue line key label
    let values ← parseLines label lines keys
    pure ((key, value) :: values)
  | _, _ => .ok []

def parseRecord (data : Bytes) (header : String) (keys : List String) (label : String) :
    Except String Values := do
  ensure (¬(data = [] ∨ data.length > maxFrameSize)) (label ++ " size is invalid")
  ensure (¬(data.getLast? ≠ some 10 ∨ (13 : UInt8) ∈ data ∨ (0 : UInt8) ∈ data))
    (label ++ " must be LF-only ASCII ending in LF")
  ensure (data.any (fun byte => decide (byte ≠ 0x0a ∧ ¬(0x20 ≤ byte ∧ byte ≤ 0x7e))) = false)
    (label ++ " contains non-printable wire text")
  ensure (data.all (fun byte => decide (byte < 0x80)) = true) (label ++ " is not ASCII")
  let lines := data.dropLast.splitOn 10
  ensure (lines.head? = some (ascii header)) ("invalid " ++ label ++ " header")
  ensure (lines.length = keys.length + 1) (label ++ " contains missing or extra fields")
  parseLines label lines.tail keys

end Records

section Requests

structure HelloRequest where
  requestId : Bytes
  clientNonce : Bytes
  expectedKernelAbi : ℕ
  requiredCaps : ℕ
  deriving DecidableEq

structure DiscoverRequest where
  requestId : Bytes
  serverNonce : Bytes
  serviceGeneration : ℕ
  targetTitleId : Bytes
  deriving DecidableEq

structure ReleaseRequest where
  requestId : Bytes
  serverNonce : Bytes
  serviceGeneration : ℕ
  targetTicket : Bytes
  deriving DecidableEq

def parseHelloRequest (data : Bytes) : Except String HelloRequest := do
  let values ← parseRecord data helloHeader helloKeys "hello request"
  ensure (values.get "mode" = ascii "observe") "version-1 hello mode must be observe"
  let requiredCaps ← hexNumber (values.get "required_caps") 8 "required capabilities" true
  ensure (TraceDecoder.andNot requiredCaps knownCapabilities = 0)
    "required capabilities contain unsupported version-1 bits"
  let requestId ← token (values.get "request_id") 32 "request ID" false
  let clientNonce ← token (values.get "client_nonce") 64 "client nonce" false
  let expectedKernelAbi ← hexNumber (values.get "expected_kernel_abi") 8 "expected kernel ABI" false
  pure ⟨requestId, clientNonce, expectedKernelAbi, requiredCaps⟩

def parseDiscoverRequest (data : Bytes) : Except String DiscoverRequest := do
  let values ← parseRecord data discoverHeader discoverKeys "discover request"
  ensure (values.get "mode" = ascii "observe") "version-1 discovery mode must be observe"
  let requestId ← token (values.get "request_id") 32 "request ID" false
  let serverNonce ← token (values.get "server_nonce") 64 "server nonce" false
  let serviceGeneration ← hexNumber (values.get "service_generation") 16 "service generation" false
  let targetTitleId ← validateTitleId (values.get "target_title_id")
  pure ⟨requestId, serverNonce, serviceGeneration, targetTitleId⟩

def parseReleaseRequest (data : Bytes) : Except String ReleaseRequest := do
  let values ← parseRecord data releaseHeader releaseKeys "release request"
  let requestId ← token (values.get "request_id") 32 "request ID" false
  let serverNonce ← token (values.get "server_nonce") 64 "server nonce" false
  let serviceGeneration ← hexNumber (values.get "service_generation") 16 "service generation" false
  let targetTicket ← token (values.get "target_ticket") 64 "target ticket" false
  pure ⟨requestId, serverNonce, serviceGeneration, targetTicket⟩

end Requests

section Results
variable (unicode : UnicodeData)

structure HelloResult where
  requestId : Bytes
  clientNonce : Bytes
  serverNonce : Bytes
  serviceGeneration : ℕ
  state : Bytes
  attachCaps : ℕ
  kernelAbi : ℕ
  kernelCaps : ℕ
  ticketLeaseMs : ℕ
  message : String
  deriving DecidableEq

structure DiscoverResult where
  requestId : Bytes
  serverNonce : Bytes
  serviceGeneration : ℕ
  state : Bytes
  targetTitleId : Bytes
  pid : ℕ
  mainModid : ℕ
  mainFingerprint : ℕ
  targetGeneration : ℕ
  targetTicket : Bytes
  message : String
  deriving DecidableEq

structure ReleaseResult where
  requestId : Bytes
  serverNonce : Bytes
  serviceGeneration : ℕ
  targetTicket : Bytes
  state : Bytes
  message : String
  deriving DecidableEq

def parseHelloResult (data : Bytes) : Except String HelloResult := do
  let values ← parseRecord data helloResultHeader helloResultKeys "hello result"
  ensure (values.get "state" ∈ [ascii "ready", ascii "unavailable"])
    "hello state must be ready or unavailable"
  ensure (values.get "control_policy" = ascii "disabled")
    "version-1 control policy must remain disabled"
  let attachCaps ← hexNumber (values.get "attach_caps") 8 "attach capabilities" true
  ensure (TraceDecoder.andNot attachCaps knownCapabilities = 0)
    "attach capabilities contain unsupported version-1 bits"
  let requestId ← token (values.get "request_id") 32 "request ID" false
  let clientNonce ← token (values.get "client_nonce") 64 "client nonce" false
  let serverNonce ← token (values.get "server_nonce") 64 "server nonce" false
  let serviceGeneration ← hexNumber (values.get "service_generation") 16 "service generation" false
  let kernelAbi ← hexNumber (values.get "kernel_abi") 8 "kernel ABI" true
  let kernelCaps ← hexNumber (values.get "kernel_caps") 8 "kernel capabilities" true
  let ticketLeaseMs ← canonicalUint (values.get "ticket_lease_ms") "ticket lease" minTicketLeaseMs
    maxTicketLeaseMs
  let message ← percentDecode unicode (values.get "message")
  pure ⟨requestId, clientNonce, serverNonce, serviceGeneration, values.get "state", attachCaps,
    kernelAbi, kernelCaps, ticketLeaseMs, message⟩

def DiscoverResult.validate (result : DiscoverResult) : Except String Unit := do
  ensure (result.state ∈ discoveryStates) "discovery state is invalid"
  let _ ← validateTitleId result.targetTitleId
  checkRange result.pid 8 "PID"
  checkRange result.mainModid 8 "main module ID"
  checkRange result.mainFingerprint 8 "main fingerprint"
  checkRange result.targetGeneration 16 "target generation"
  let _ ← token result.targetTicket 64 "target ticket" true
  if result.state = ascii "found" then do
    ensure (1 ≤ result.pid ∧ result.pid ≤ 0x7fffffff) "found target PID must be a positive SceUID"
    ensure (1 ≤ result.mainModid ∧ result.mainModid ≤ 0x7fffffff)
      "found target main module ID must be a positive SceUID"
    ensure (result.mainFingerprint ≠ 0) "found target requires a nonzero main module fingerprint"
    ensure (¬(result.targetGeneration = 0 ∨ hexValue result.targetTicket = 0))
      "found target requires a generation and ticket"
  else
    ensure (result.pid = 0 ∧ result.mainModid = 0 ∧ result.mainFingerprint = 0 ∧
      result.targetGeneration = 0 ∧ hexValue result.targetTicket = 0)
      "failed discovery must not carry target identity data"

def parseDiscoverResult (data : Bytes) : Except String DiscoverResult := do
  let values ← parseRecord data discoverResultHeader discoverResultKeys "discover result"
  let requestId ← token (values.get "request_id") 32 "request ID" false
  let serverNonce ← token (values.get "server_nonce") 64 "server nonce" false
  let serviceGeneration ← hexNumber (values.get "service_generation") 16 "service generation" false
  let targetTitleId ← validateTitleId (values.get "target_title_id")
  let pid ← hexNumber (values.get "pid") 8 "PID" true
  let mainModid ← hexNumber (values.get "main_modid") 8 "main module ID" true
  let mainFingerprint ← hexNumber (values.get "main_fingerprint") 8 "main fingerprint" true
  let targetGeneration ← hexNumber (values.get "target_generation") 16 "target generation" true
  let targetTicket ← token (values.get "target_ticket") 64 "target ticket" true
  let message ← percentDecode unicode (values.get "message")
  let result : DiscoverResult := ⟨requestId, serverNonce, serviceGeneration, values.get "state",
    targetTitleId, pid, mainModid, mainFingerprint, targetGeneration, targetTicket, message⟩
  result.validate
  pure result

def parseReleaseResult (data : Bytes) : Except String ReleaseResult := do
  let values ← parseRecord data releaseResultHeader releaseResultKeys "release result"
  ensure (values.get "state" ∈ releaseStates) "release state is invalid"
  let requestId ← token (values.get "request_id") 32 "request ID" false
  let serverNonce ← token (values.get "server_nonce") 64 "server nonce" false
  let serviceGeneration ← hexNumber (values.get "service_generation") 16 "service generation" false
  let targetTicket ← token (values.get "target_ticket") 64 "target ticket" false
  let message ← percentDecode unicode (values.get "message")
  pure ⟨requestId, serverNonce, serviceGeneration, targetTicket, values.get "state", message⟩

end Results

end VitaDebugger.BrokerHost
