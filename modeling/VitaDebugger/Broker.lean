import Mathlib.Data.Int.Notation
import Mathlib.Logic.Function.Basic
import VitaDebugger.BrokerWire

/-! The attach broker: its four sessions with their request identifiers and tickets, and the
calls that open, serve and close them. What the callbacks return is an argument of each call. -/

namespace VitaDebugger.Broker
open AsciiText BrokerWire LowerHex

abbrev maxRequestIds : ℕ := 64

inductive VdAttachInventoryResult where
  | found
  | notFound
  | denied
  | changed
  | error
  | unavailable
  | other (code : ℤ)
  deriving DecidableEq

structure VdAttachBrokerTicket where
  active : Bool
  token : Bytes
  expiresAtMs : UInt64
  identity : VdAttachTargetIdentity
  deriving DecidableEq

def zeroTicket : VdAttachBrokerTicket := ⟨false, [], 0, zeroIdentity⟩

/-- A session; `request_id_count` is the length of the table. -/
structure VdAttachBrokerSession where
  active : Bool
  helloComplete : Bool
  sessionId : UInt64
  peerId : UInt64
  serverNonce : Bytes
  requestIds : List Bytes
  ticket : VdAttachBrokerTicket
  deriving DecidableEq

def zeroSession : VdAttachBrokerSession := ⟨false, false, 0, 0, [], [], zeroTicket⟩

structure VdAttachBroker where
  config : VdAttachBrokerConfig
  serviceGeneration : UInt64
  shuttingDown : Bool
  sessions : Fin 4 → VdAttachBrokerSession

/-- One slot replaced. -/
def VdAttachBroker.set (broker : VdAttachBroker) (i : Fin 4) (session : VdAttachBrokerSession) :
    VdAttachBroker :=
  { broker with sessions := Function.update broker.sessions i session }

/-- The answers of the entropy callback, call by call: a failure, or the bytes it writes. -/
abbrev Entropy := ℕ → Option (ℕ → UInt8)

section Random
variable (entropy : Entropy)

/-- The loop of `vd_fill_random`, with the attempts left and the calls made. -/
def fillRandom (size : ℕ) : ℕ → ℕ → Except BrokerError Bytes × ℕ
  | 0, calls => (.error .entropy, calls)
  | attempts + 1, calls =>
    match entropy calls with
    | none => (.error .entropy, calls + 1)
    | some output =>
      let bytes := (List.range size).map output
      if bytes.any (· != 0) then (.ok bytes, calls + 1) else fillRandom size attempts (calls + 1)

def vdFillRandom (size calls : ℕ) : Except BrokerError Bytes × ℕ :=
  fillRandom entropy size 4 calls

def vdMakeToken (calls : ℕ) : Except BrokerError Bytes × ℕ :=
  match vdFillRandom entropy 32 calls with
  | (.error e, calls) => (.error e, calls)
  | (.ok bytes, calls) => (.ok (encode bytes), calls)

def vdMakeU64 (calls : ℕ) : Except BrokerError UInt64 × ℕ :=
  match vdFillRandom entropy 8 calls with
  | (.error e, calls) => (.error e, calls)
  | (.ok bytes, calls) =>
    let value := bytes.foldl (fun (value : UInt64) byte => value <<< 8 ||| byte.toUInt64) 0
    if value = 0 then (.error .entropy, calls) else (.ok value, calls)

/-- A loop that draws until a value is not taken, for as many attempts as are left. -/
def drawFresh {α : Type} (draw : ℕ → Except BrokerError α × ℕ) (taken : α → Bool) :
    ℕ → ℕ → Except BrokerError α × ℕ
  | 0, calls => (.error .entropy, calls)
  | attempts + 1, calls =>
    match draw calls with
    | (.error e, calls) => (.error e, calls)
    | (.ok value, calls) =>
      if taken value then drawFresh draw taken attempts calls else (.ok value, calls)

end Random

section Sessions
variable (broker : VdAttachBroker)

def allSlots : List (Fin 4) := [0, 1, 2, 3]

def vdFindSession (sessionId peerId : UInt64) : Except BrokerError (Fin 4) :=
  match allSlots.find? fun i =>
      (broker.sessions i).active && (broker.sessions i).sessionId == sessionId with
  | none => .error .state
  | some i => if (broker.sessions i).peerId ≠ peerId then .error .peer else .ok i

def vdRequestIdClaim (session : VdAttachBrokerSession) (requestId : Bytes) :
    Except BrokerError VdAttachBrokerSession :=
  if requestId ∈ session.requestIds then .error .replay
  else if session.requestIds.length ≥ maxRequestIds then .error .limit
  else .ok { session with requestIds := session.requestIds ++ [requestId] }

def vdDeadlineAfter (now : UInt64) (interval : UInt32) : UInt64 :=
  let result := now + interval.toUInt64
  if result < now then 0xffffffffffffffff else result

def vdExpireTickets (now : UInt64) : VdAttachBroker := { broker with
    sessions := fun i =>
      let session := broker.sessions i
      if session.active && session.ticket.active && decide (now ≥ session.ticket.expiresAtMs) then
        { session with ticket := zeroTicket }
      else session }

def vdTicketExistsElsewhere (owner : Fin 4) (ticket : Bytes) : Bool :=
  allSlots.any fun i => i != owner && (broker.sessions i).active &&
    (broker.sessions i).ticket.active && (broker.sessions i).ticket.token == ticket

def vdTicketTokenInUse (token : Bytes) : Bool :=
  allSlots.any fun i => (broker.sessions i).active && (broker.sessions i).ticket.active &&
    (broker.sessions i).ticket.token == token

def vdMakeUniqueTicket (entropy : Entropy) : Except BrokerError Bytes :=
  (drawFresh (vdMakeToken entropy) (vdTicketTokenInUse broker) 4 0).1

def vdServerNonceInUse (owner : Fin 4) (nonce : Bytes) : Bool :=
  allSlots.any fun i => i != owner && (broker.sessions i).active &&
    (broker.sessions i).serverNonce == nonce

def sessionIdInUse (candidate : UInt64) : Bool :=
  allSlots.any fun i => (broker.sessions i).active && (broker.sessions i).sessionId == candidate

end Sessions

section Handlers

/-- What a request did in its session, for the record: no code reads it. -/
inductive Effect where
  | accepted (requestId : Bytes)
  | issued (ticket : VdAttachBrokerTicket)
  | consumed
  | released (current : VdAttachTargetIdentity)
  deriving DecidableEq

structure Outcome where
  broker : VdAttachBroker
  response : Except BrokerError Bytes
  effects : List (Fin 4 × Effect)

def refused (broker : VdAttachBroker) (e : BrokerError) : Outcome := ⟨broker, .error e, []⟩

/-- What the callbacks answer during one request. -/
structure Answers where
  now : UInt64
  discoverExact : Bytes → VdAttachInventoryResult × VdAttachTargetIdentity
  entropy : Entropy
  issueNow : UInt64

variable (broker : VdAttachBroker) (i : Fin 4) (request : Bytes) (capacity : ℕ)

def vdHandleHello : Outcome :=
  let session := broker.sessions i
  if session.helloComplete then refused broker .state
  else
    match vdParseHello request with
    | .error e => refused broker e
    | .ok hello =>
      match vdRequestIdClaim session hello.requestId with
      | .error e => refused broker e
      | .ok session =>
        let broker := broker.set i { session with helloComplete := true }
        ⟨broker, vdWriteHelloResult broker.config broker.serviceGeneration session.serverNonce hello
          capacity, [(i, .accepted hello.requestId)]⟩

def vdInventoryState : VdAttachInventoryResult → Bytes
  | .notFound => ascii "not_found"
  | .denied => ascii "denied"
  | .changed => ascii "changed"
  | _ => ascii "error"

def discoveryCaps : UInt32 := capExactTitleDiscovery ||| capIdentityTicket ||| capTicketRelease

/-- The part of a discovery behind the checks of the request. -/
def discoverTarget (answers : Answers) (session : VdAttachBrokerSession)
    (discover : VdDiscoverRequest) : Outcome :=
  let broker := broker.set i session
  let accepted : List (Fin 4 × Effect) := [(i, .accepted discover.requestId)]
  let answer (state message : Bytes) : Outcome :=
    ⟨broker, vdWriteDiscoverResult broker.serviceGeneration session.serverNonce discover state none
      none message capacity, accepted⟩
  if session.ticket.active then answer (ascii "error") (ascii "release active ticket first")
  else if broker.config.serviceReady = false ∨ broker.config.discoverExact = false ∨
      broker.config.attachCaps &&& discoveryCaps ≠ discoveryCaps then
    answer (ascii "error") (ascii "service unavailable")
  else
    match answers.discoverExact discover.titleId with
    | (.found, identity) =>
      if vdIdentityIsValid identity discover.titleId = false then
        answer (ascii "error") (ascii "invalid identity snapshot")
      else
        -- the ticket is cleared before the draw; a failed draw leaves it inactive
        let cleared := broker.set i { session with ticket := zeroTicket }
        match vdMakeUniqueTicket cleared answers.entropy with
        | .error _ =>
          ⟨cleared, vdWriteDiscoverResult broker.serviceGeneration session.serverNonce discover
            (ascii "error") none none (ascii "ticket entropy unavailable") capacity, accepted⟩
        | .ok token =>
          let ticket : VdAttachBrokerTicket := ⟨true, token,
            vdDeadlineAfter answers.issueNow broker.config.ticketLeaseMs, identity⟩
          ⟨broker.set i { session with ticket := ticket },
            vdWriteDiscoverResult broker.serviceGeneration session.serverNonce discover
              (ascii "found") (some identity) (some token) [] capacity,
            accepted ++ [(i, .issued ticket)]⟩
    | (result, _) =>
      answer (vdInventoryState result)
        (if result = .unavailable then ascii "identity provider unavailable" else [])

def vdHandleDiscover (answers : Answers) : Outcome :=
  let session := broker.sessions i
  if session.helloComplete = false then refused broker .state
  else
    match vdParseDiscover request with
    | .error e => refused broker e
    | .ok discover =>
      if discover.serverNonce ≠ session.serverNonce ∨
          discover.serviceGeneration ≠ broker.serviceGeneration then refused broker .state
      else
        match vdRequestIdClaim session discover.requestId with
        | .error e => refused broker e
        | .ok session => discoverTarget broker i capacity answers session discover

/-- The part of a release behind the checks of the request. -/
def releaseTicket (answers : Answers) (session : VdAttachBrokerSession)
    (release : VdReleaseRequest) : Outcome :=
  let broker := broker.set i session
  let accepted : List (Fin 4 × Effect) := [(i, .accepted release.requestId)]
  let write (state message : Bytes) : Except BrokerError Bytes :=
    vdWriteReleaseResult broker.serviceGeneration session.serverNonce release state message capacity
  if session.ticket.active = false ∨ session.ticket.token ≠ release.ticket then
    ⟨broker, write (if vdTicketExistsElsewhere broker i release.ticket then ascii "changed"
      else ascii "missing") [], accepted⟩
  else
    -- consumed before the identity is checked again
    let expected := session.ticket.identity
    let broker := broker.set i { session with ticket := zeroTicket }
    let consumed := accepted ++ [(i, .consumed)]
    if broker.config.discoverExact = false then
      ⟨broker, write (ascii "error") (ascii "identity provider unavailable"), consumed⟩
    else
      match answers.discoverExact expected.titleId with
      | (.found, current) =>
        if vdIdentityIsValid current expected.titleId = false then
          ⟨broker, write (ascii "error") (ascii "invalid identity snapshot"), consumed⟩
        else if vdIdentityMatches current expected then
          ⟨broker, write (ascii "released") [], consumed ++ [(i, .released current)]⟩
        else ⟨broker, write (ascii "changed") [], consumed⟩
      | (.error, _) =>
        ⟨broker, write (ascii "error") (ascii "identity revalidation unavailable"), consumed⟩
      | (.unavailable, _) =>
        ⟨broker, write (ascii "error") (ascii "identity revalidation unavailable"), consumed⟩
      | _ => ⟨broker, write (ascii "changed") [], consumed⟩

def vdHandleRelease (answers : Answers) : Outcome :=
  let session := broker.sessions i
  if session.helloComplete = false then refused broker .state
  else
    match vdParseRelease request with
    | .error e => refused broker e
    | .ok release =>
      if release.serverNonce ≠ session.serverNonce ∨
          release.serviceGeneration ≠ broker.serviceGeneration then refused broker .state
      else
        match vdRequestIdClaim session release.requestId with
        | .error e => refused broker e
        | .ok session => releaseTicket broker i capacity answers session release

/-- The request starts with the header and the end of its line. -/
def startsWith (request header : Bytes) : Bool :=
  decide (request.length > header.length) && request.take header.length == header &&
    request[header.length]? == some 10

end Handlers

section Calls
variable (broker : VdAttachBroker)

def vdHandleRecordWithDeadline (sessionId peerId : UInt64)
    (request : Bytes) (responseCapacity : ℕ) (answers : Answers) : Outcome :=
  if responseCapacity = 0 then refused broker .argument
  else if broker.shuttingDown then refused broker .shutdown
  else
    match vdFindSession broker sessionId peerId with
    | .error e => refused broker e
    | .ok i =>
      let broker := vdExpireTickets broker answers.now
      if startsWith request helloHeader then vdHandleHello broker i request responseCapacity
      else if startsWith request discoverHeader then
        vdHandleDiscover broker i request responseCapacity answers
      else if startsWith request releaseHeader then
        vdHandleRelease broker i request responseCapacity answers
      else refused broker .protocol

/-- A session in the first free slot; besides the identifier the slot is returned. -/
def vdAttachBrokerOpenSession (peerId now : UInt64) (entropy : Entropy) :
    VdAttachBroker × Except BrokerError (Fin 4 × UInt64) :=
  if peerId = 0 then (broker, .error .argument)
  else if broker.shuttingDown then (broker, .error .shutdown)
  else
    let broker := vdExpireTickets broker now
    match allSlots.find? fun i => !(broker.sessions i).active with
    | none => (broker, .error .limit)
    | some i =>
      let broker := broker.set i zeroSession
      match drawFresh (vdMakeU64 entropy) (sessionIdInUse broker) 4 0 with
      | (.error e, _) => (broker, .error e)
      | (.ok candidate, calls) =>
        match drawFresh (vdMakeToken entropy) (vdServerNonceInUse broker i) 4 calls with
        | (.error e, _) => (broker, .error e)
        | (.ok serverNonce, _) =>
          (broker.set i ⟨true, false, candidate, peerId, serverNonce, [], zeroTicket⟩,
            .ok (i, candidate))

def vdAttachBrokerCloseSession (sessionId peerId : UInt64) : VdAttachBroker :=
  match vdFindSession broker sessionId peerId with
  | .error _ => broker
  | .ok i => broker.set i zeroSession

def vdAttachBrokerShutdown : VdAttachBroker :=
  { broker with shuttingDown := true, sessions := fun _ => zeroSession }

def vdAttachBrokerInit (config : VdAttachBrokerConfig) (entropy : Entropy) :
    Except BrokerError VdAttachBroker :=
  if configIsValid config = false then .error .argument
  else
    match vdMakeU64 entropy 0 with
    | (.error e, _) => .error e
    | (.ok serviceGeneration, _) => .ok ⟨config, serviceGeneration, false, fun _ => zeroSession⟩

end Calls

end VitaDebugger.Broker
