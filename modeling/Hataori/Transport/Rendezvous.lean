import Hataori.Lib.Layouts
import Hataori.Lib.Machine
import Hataori.Lib.Readers
import Hataori.Transport.Bootstrap

/-!
# The rendezvous

`TcpRendezvous::join` of `hataori-runtime-foundation/src/tcp/rendezvous.rs`: a coordinator accepts
one connection of every other locality, in whatever order they come, and answers each with the
endpoints of all and the index of its own. What the operating system does, from a read that times
out to a write that stops halfway, is an argument of the step it happens in.
-/

namespace Hataori.Transport

open Hataori.Runtime Lib.Bytes Lib.Machine Lib.Readers

/-! ## Frames -/

/-- `JOIN_MAGIC`. -/
def joinMagic : List UInt8 := [72, 84, 82, 74]

/-- `MEMBERSHIP_MAGIC`. -/
def membershipMagic : List UInt8 := [72, 84, 82, 77]

/-- `MAX_ENDPOINT_BYTES`. -/
def maxEndpointBytes : Nat := 128

/-- `MAX_LOCALITIES`. -/
def maxLocalities : Nat := 1024

/-- `TcpRendezvousConfig`, without the endpoint to meet at. -/
structure RendezvousConfig where
  runId : RunId
  localEndpoint : SocketAddr
  expectedLocalities : Nat
  timeout : Nat
  deriving DecidableEq

/-- `TcpMembership`. -/
structure TcpMembership where
  localId : LocalityId
  endpoints : List SocketAddr
  deriving DecidableEq, Repr

/-- `SocketAddr::to_string` and `SocketAddr::from_str`, with the texts of its errors and of
    `Utf8Error`. -/
structure AddressText where
  display : SocketAddr → String
  parse : String → Except String SocketAddr
  invalid : List UInt8 → String

/-- The error of a `read_exact` that does not get its bytes. -/
def shortRead : TransportError := .io "failed to fill whole buffer"

/-- `RunId::new` of the sixteen bytes at 4. -/
def headerRun (header : List UInt8) : Except TransportError RunId :=
  fromProtocol (idOr "RunId" (RunId.new (field header 4 16)))

/-- What `read_join` and `read_membership` read behind the length of an endpoint. -/
def readEndpoint (text : AddressText) (length : Nat) : ByteReader TransportError SocketAddr := do
  if length = 0 ∨ maxEndpointBytes < length then given (.error (.byteLimit length maxEndpointBytes))
  else do
    let bytes ← readExact shortRead length
    given (match toText bytes with
      | none => .error (.peer (text.invalid bytes))
      | some written => (text.parse written).mapError TransportError.peer)

/-- What `write_join` and `write_membership` write of an endpoint. -/
def endpointBytes (text : AddressText) (endpoint : SocketAddr) : List UInt8 :=
  toLe 2 (ofText (text.display endpoint)).length ++ ofText (text.display endpoint)

/-- The check both make of its length, which then fits the `u16`. -/
def checkEndpoint (text : AddressText) (endpoint : SocketAddr) : Except TransportError Unit :=
  let length := (ofText (text.display endpoint)).length
  if maxEndpointBytes < length then .error (.byteLimit length maxEndpointBytes) else .ok ()

/-- `write_join`: the bytes it writes. -/
def writeJoin (text : AddressText) (runId : RunId) (endpoint : SocketAddr) :
    Except TransportError (List UInt8) := do
  checkEndpoint text endpoint
  return joinMagic ++ toLe 16 runId.get.toNat ++ endpointBytes text endpoint

/-- `read_join`. -/
def readJoin (text : AddressText) : ByteReader TransportError (RunId × SocketAddr) := do
  let header ← readExact shortRead 22
  if slice header 0 4 ≠ joinMagic then
    given (.error (.peer "TCP rendezvous join magic mismatch"))
  else do
    let runId ← given (headerRun header)
    let endpoint ← readEndpoint text (field header 20 2)
    pure (runId, endpoint)

/-- `write_membership`. -/
def writeMembership (text : AddressText) (runId : RunId) (membership : TcpMembership) :
    Except TransportError (List UInt8) := do
  if 2 ^ 32 ≤ membership.endpoints.length then .error (.peer "membership count overflow")
  membership.endpoints.forM (checkEndpoint text)
  return membershipMagic ++ toLe 16 runId.get.toNat ++ toLe 8 membership.localId.get.toNat ++
    toLe 4 membership.endpoints.length ++ membership.endpoints.flatMap (endpointBytes text)

/-- One turn of the loop of `read_membership`. -/
def readMember (text : AddressText) : ByteReader TransportError SocketAddr := do
  let length ← readExact shortRead 2
  readEndpoint text (ofLe length)

/-- `read_membership`. -/
def readMembership (text : AddressText) (expectedRun : RunId) :
    ByteReader TransportError TcpMembership := do
  let header ← readExact shortRead 32
  if slice header 0 4 ≠ membershipMagic then
    given (.error (.peer "TCP rendezvous membership magic mismatch"))
  else do
    let runId ← given (headerRun header)
    if runId ≠ expectedRun then given (.error (.protocol .runMismatch))
    else
      let localId : LocalityId := ⟨UInt64.ofNat (field header 20 8)⟩
      let count := field header 28 4
      if count = 0 ∨ maxLocalities < count ∨ count ≤ localId.get.toNat then
        given (.error (.peer "TCP rendezvous membership metadata is invalid"))
      else do
        let endpoints ← readMany (readMember text) count
        if ¬endpoints.Nodup then
          given (.error (.peer "TCP rendezvous membership contains duplicate endpoints"))
        else pure ⟨localId, endpoints⟩

/-- `validate_config`. -/
def validateConfig (config : RendezvousConfig) : Except TransportError Unit :=
  if config.expectedLocalities = 0 ∨ maxLocalities < config.expectedLocalities then
    .error (.peer "TCP rendezvous locality count is out of bounds")
  else if config.timeout = 0 then .error (.timeout "TCP rendezvous configuration")
  else .ok ()

/-- `join_coordinator` from `read_membership` on. -/
def acceptMembership (text : AddressText) (config : RendezvousConfig) (bytes : List UInt8) :
    Except TransportError TcpMembership := do
  let (membership, _) ← readMembership text config.runId bytes
  if membership.endpoints.length ≠ config.expectedLocalities then
    .error (.peer "TCP rendezvous membership size mismatch")
  else if membership.endpoints[membership.localId.get.toNat]? ≠ some config.localEndpoint then
    .error (.peer "TCP rendezvous assigned endpoint mismatch")
  else .ok membership

/-- What `coordinate` makes of a connection it accepted, with the endpoints it has. -/
def admitJoin (text : AddressText) (config : RendezvousConfig) (endpoints : List SocketAddr)
    (bytes : List UInt8) : Except TransportError SocketAddr := do
  let ((runId, endpoint), _) ← readJoin text bytes
  if runId ≠ config.runId then .error (.protocol .runMismatch)
  else if endpoint ∈ endpoints then .error (.peer "TCP rendezvous endpoint is duplicated")
  else .ok endpoint

/-! ## The parties -/

/-- Where `coordinate` stands: in its accept loop, in its answers, or done. -/
inductive CoordinatorPhase where
  | accepting (endpoints : List SocketAddr) (clients : List Nat)
  | answering (endpoints : List SocketAddr) (clients : List Nat) (offset : Nat)
  | returned (result : Except TransportError TcpMembership)
  deriving DecidableEq

/-- Where `join_coordinator` stands. -/
inductive ClientPhase where
  | idle
  | dialled
  | joined
  | returned (result : Except TransportError TcpMembership)
  deriving DecidableEq

/-- The parties and the bytes on their connections, each named by a number. -/
structure Meeting where
  coordinator : CoordinatorPhase
  clients : Nat → ClientPhase
  opened : List Nat
  written : Nat → List UInt8
  answered : Nat → List UInt8

/-- What may happen next. A connection that belongs to no configured client is a stranger's. A
    fault is the text of an I/O error, behind a number of bytes where some are written first. -/
inductive Happening where
  | dial (client : Nat)
  | giveUp (client : Nat) (error : TransportError)
  | join (client : Nat) (fault : Option (Nat × String))
  | stranger (connection : Nat) (bytes : List UInt8)
  | accept (connection : Nat) (fault : Option String)
  | fail (error : TransportError)
  | answer (fault : Option (Nat × String))
  | receive (client : Nat) (fault : Option String)
  deriving DecidableEq

/-- After an answer: the next one, or the membership of the coordinator itself. -/
def CoordinatorPhase.answers (endpoints : List SocketAddr) (clients : List Nat) (offset : Nat) :
    CoordinatorPhase :=
  if offset < clients.length then .answering endpoints clients offset
  else .returned (.ok ⟨⟨0⟩, endpoints⟩)

/-- The condition of the accept loop. -/
def CoordinatorPhase.accepts (config : RendezvousConfig) (endpoints : List SocketAddr)
    (clients : List Nat) : CoordinatorPhase :=
  if endpoints.length < config.expectedLocalities then .accepting endpoints clients
  else .answers endpoints clients 0

namespace Meeting

/-- Nobody has dialled. -/
def start (config : RendezvousConfig) : Meeting where
  coordinator :=
    match validateConfig config with
    | .error error => .returned (.error error)
    | .ok () => .accepts config [config.localEndpoint] []
  clients := fun _ => .idle
  opened := []
  written := fun _ => []
  answered := fun _ => []

/-- The client moves on. -/
def setClient (meeting : Meeting) (client : Nat) (phase : ClientPhase) : Meeting :=
  { meeting with clients := Function.update meeting.clients client phase }

/-- `coordinate` accepts a connection. -/
def acceptStep (meeting : Meeting) (text : AddressText) (config : RendezvousConfig)
    (connection : Nat) (fault : Option String) : Option Meeting :=
  match meeting.coordinator with
  | .accepting endpoints clients =>
    if connection ∈ meeting.opened ∧ connection ∉ clients then
      match fault with
      | some message => some { meeting with coordinator := .returned (.error (.io message)) }
      | none =>
        match admitJoin text config endpoints (meeting.written connection) with
        | .error error => some { meeting with coordinator := .returned (.error error) }
        | .ok endpoint =>
          let phase := CoordinatorPhase.accepts config (endpoints ++ [endpoint])
            (clients ++ [connection])
          some { meeting with coordinator := phase }
    else none
  | _ => none

/-- `coordinate` answers the next connection. -/
def answerStep (meeting : Meeting) (text : AddressText) (config : RendezvousConfig)
    (fault : Option (Nat × String)) : Option Meeting :=
  match meeting.coordinator with
  | .answering endpoints clients offset =>
    match clients[offset]?, writeMembership text config.runId
        ⟨⟨UInt64.ofNat (offset + 1)⟩, endpoints⟩ with
    | none, _ => none
    | some _, .error error => some { meeting with coordinator := .returned (.error error) }
    | some connection, .ok frame =>
      match fault with
      | some (count, message) =>
        some { meeting with
          coordinator := .returned (.error (.io message))
          answered := Function.update meeting.answered connection (frame.take count) }
      | none =>
        some { meeting with
          coordinator := .answers endpoints clients (offset + 1)
          answered := Function.update meeting.answered connection frame }
  | _ => none

/-- One step of one party. -/
def step (text : AddressText) (config : RendezvousConfig)
    (configs : Nat → Option RendezvousConfig) (meeting : Meeting) : Happening → Option Meeting
  | .dial client =>
    match configs client, meeting.clients client with
    | some mine, .idle =>
      match validateConfig mine with
      | .error error => some (meeting.setClient client (.returned (.error error)))
      | .ok () =>
        if client ∈ meeting.opened then none
        else some { meeting.setClient client .dialled with opened := client :: meeting.opened }
    | _, _ => none
  | .giveUp client error =>
    match configs client, meeting.clients client with
    | some _, .returned _ => none
    | some _, _ => some (meeting.setClient client (.returned (.error error)))
    | none, _ => none
  | .join client fault =>
    match configs client, meeting.clients client with
    | some mine, .dialled =>
      match writeJoin text mine.runId mine.localEndpoint, fault with
      | .error error, _ => some (meeting.setClient client (.returned (.error error)))
      | .ok frame, some (count, message) =>
        some { meeting.setClient client (.returned (.error (.io message))) with
          written := Function.update meeting.written client (frame.take count) }
      | .ok frame, none =>
        some { meeting.setClient client .joined with
          written := Function.update meeting.written client frame }
    | _, _ => none
  | .stranger connection bytes =>
    if configs connection = none ∧ connection ∉ meeting.opened then
      some { meeting with
        opened := connection :: meeting.opened
        written := Function.update meeting.written connection bytes }
    else none
  | .accept connection fault => meeting.acceptStep text config connection fault
  | .fail error =>
    match meeting.coordinator with
    | .accepting _ _ => some { meeting with coordinator := .returned (.error error) }
    | _ => none
  | .answer fault => meeting.answerStep text config fault
  | .receive client fault =>
    match configs client, meeting.clients client with
    | some mine, .joined =>
      match fault with
      | some message => some (meeting.setClient client (.returned (.error (.io message))))
      | none =>
        some (meeting.setClient client
          (.returned (acceptMembership text mine (meeting.answered client))))
    | _, _ => none

/-- The membership a party has returned; the coordinator is the party without a number. -/
def membership (meeting : Meeting) : Option Nat → Option TcpMembership
  | none =>
    match meeting.coordinator with
    | .returned (.ok found) => some found
    | _ => none
  | some client =>
    match meeting.clients client with
    | .returned (.ok found) => some found
    | _ => none

end Meeting

/-! ## What is written is read back -/

variable {text : AddressText} {config : RendezvousConfig}
  {configs : Nat → Option RendezvousConfig}

theorem steady_readEndpoint (text : AddressText) (length : Nat) :
    Steady (readEndpoint text length) :=
  (steady_given _).ite ((steady_readExact _ _).bind fun _ => steady_given _)

theorem steady_readMember (text : AddressText) : Steady (readMember text) :=
  (steady_readExact _ _).bind fun _ => steady_readEndpoint text _

theorem steady_readMembership (text : AddressText) (expectedRun : RunId) :
    Steady (readMembership text expectedRun) := by
  refine (steady_readExact _ _).bind fun header => (steady_given _).ite ?_
  refine (steady_given _).bind fun runId => (steady_given _).ite ((steady_given _).ite ?_)
  refine (steady_readMany (steady_readMember text) _).bind fun endpoints => ?_
  exact (steady_given _).ite (steady_pure _)

theorem checkEndpoint_ok {endpoint : SocketAddr} (h : checkEndpoint text endpoint = .ok ()) :
    (ofText (text.display endpoint)).length ≤ maxEndpointBytes := by
  unfold checkEndpoint at h
  dsimp only at h
  split at h
  · cases h
  next hle => exact not_lt.mp hle

/-- An endpoint that has a text comes back from behind its length. -/
theorem readEndpoint_display {endpoint : SocketAddr} (rest : List UInt8)
    (hcheck : checkEndpoint text endpoint = .ok ())
    (hparse : text.parse (text.display endpoint) = .ok endpoint) :
    readEndpoint text (ofText (text.display endpoint)).length
        (ofText (text.display endpoint) ++ rest) =
      if (ofText (text.display endpoint)).length = 0 then
        .error (.byteLimit 0 maxEndpointBytes)
      else .ok (endpoint, rest) := by
  have hle := checkEndpoint_ok hcheck
  unfold readEndpoint
  by_cases hempty : (ofText (text.display endpoint)).length = 0
  · rw [if_pos (Or.inl hempty), if_pos hempty, hempty]
    rfl
  · rw [if_neg (by omega), if_neg hempty, bind_run (readExact_append rfl), toText_ofText]
    simp only [hparse]
    rfl

theorem readMember_endpointBytes {endpoint : SocketAddr} (rest : List UInt8)
    (hcheck : checkEndpoint text endpoint = .ok ())
    (hparse : text.parse (text.display endpoint) = .ok endpoint) :
    readMember text (endpointBytes text endpoint ++ rest) =
      if (ofText (text.display endpoint)).length = 0 then
        .error (.byteLimit 0 maxEndpointBytes)
      else .ok (endpoint, rest) := by
  have hle := checkEndpoint_ok hcheck
  have hwidth : (ofText (text.display endpoint)).length < 256 ^ 2 := by
    unfold maxEndpointBytes at hle
    omega
  rw [readMember, endpointBytes, List.append_assoc, bind_run (readExact_append (length_toLe _ _)),
    ofLe_toLe hwidth]
  exact readEndpoint_display rest hcheck hparse

/-- Endpoints that are read from where some were written are those. -/
theorem readMany_inv {endpoints found : List SocketAddr} {rest left : List UInt8}
    (hcheck : ∀ endpoint ∈ endpoints, checkEndpoint text endpoint = .ok ())
    (hparse : ∀ endpoint ∈ endpoints, text.parse (text.display endpoint) = .ok endpoint)
    (h : readMany (readMember text) endpoints.length
      (endpoints.flatMap (endpointBytes text) ++ rest) = .ok (found, left)) :
    found = endpoints := by
  induction endpoints generalizing found left with
  | nil =>
    cases h
    rfl
  | cons endpoint endpoints ih =>
    obtain ⟨hchecked, hcheck⟩ := List.forall_mem_cons.mp hcheck
    obtain ⟨hparsed, hparse⟩ := List.forall_mem_cons.mp hparse
    rw [List.flatMap_cons, List.append_assoc, List.length_cons, readMany] at h
    obtain ⟨first, behind, hfirst, h⟩ := bind_ok_run h
    rw [readMember_endpointBytes _ hchecked hparsed] at hfirst
    split at hfirst
    · cases hfirst
    cases hfirst
    obtain ⟨others, behind, hothers, h⟩ := bind_ok_run h
    cases h
    rw [ih hcheck hparse hothers]

theorem forM_ok {values : List SocketAddr} (h : values.forM (checkEndpoint text) = .ok ()) :
    ∀ endpoint ∈ values, checkEndpoint text endpoint = .ok () := by
  induction values with
  | nil => exact fun _ hmem => nomatch hmem
  | cons value values ih =>
    obtain ⟨_, hvalue, hrest⟩ := bind_ok h
    exact List.forall_mem_cons.mpr ⟨hvalue, ih hrest⟩

/-- The header in front of the endpoints. -/
def membershipHeader (runId : RunId) (membership : TcpMembership) : List (List UInt8) :=
  [membershipMagic, toLe 16 runId.get.toNat, toLe 8 membership.localId.get.toNat,
    toLe 4 membership.endpoints.length]

theorem writeMembership_ok {runId : RunId} {membership : TcpMembership} {frame : List UInt8}
    (h : writeMembership text runId membership = .ok frame) :
    frame = (membershipHeader runId membership).flatten ++
        membership.endpoints.flatMap (endpointBytes text) ∧
      membership.endpoints.length < 2 ^ 32 ∧
      ∀ endpoint ∈ membership.endpoints, checkEndpoint text endpoint = .ok () := by
  simp only [writeMembership, bind, Except.bind, pure, Except.pure] at h
  split at h
  · cases h
  next hcount =>
    split at h
    · cases h
    next hchecked =>
      cases h
      exact ⟨by simp [membershipHeader], not_le.mp hcount, forM_ok hchecked⟩

theorem membershipHeader_length (runId : RunId) (membership : TcpMembership) :
    (membershipHeader runId membership).flatten.length = 32 := by
  simp [membershipHeader, membershipMagic]

theorem membershipHeader_localId (runId : RunId) (membership : TcpMembership) :
    field (membershipHeader runId membership).flatten 20 8 = membership.localId.get.toNat :=
  have hpart : (membershipHeader runId membership)[2]? = some (toLe 8 membership.localId.get.toNat) :=
    rfl
  Lib.Layouts.field_part hpart rfl membership.localId.get.toNat_lt

theorem membershipHeader_count {runId : RunId} {membership : TcpMembership}
    (h : membership.endpoints.length < 2 ^ 32) :
    field (membershipHeader runId membership).flatten 28 4 = membership.endpoints.length :=
  have hpart : (membershipHeader runId membership)[3]? =
    some (toLe 4 membership.endpoints.length) := rfl
  Lib.Layouts.field_part hpart rfl h

theorem membershipHeader_run (runId : RunId) (membership : TcpMembership) :
    headerRun (membershipHeader runId membership).flatten = .ok runId := by
  have hpart : (membershipHeader runId membership)[1]? = some (toLe 16 runId.get.toNat) := rfl
  have hfield : field (membershipHeader runId membership).flatten 4 16 = runId.get.toNat :=
    Lib.Layouts.field_part hpart rfl runId.get.isLt
  rw [headerRun, hfield, RunId.new_get]
  rfl

/-- What a membership that is read has in its header. -/
theorem readMembership_inv {expectedRun : RunId} {bytes left : List UInt8}
    {membership : TcpMembership}
    (h : readMembership text expectedRun bytes = .ok (membership, left)) :
    ∃ header rest, readExact shortRead 32 bytes = .ok (header, rest) ∧
      headerRun header = .ok expectedRun ∧
      membership.localId = ⟨UInt64.ofNat (field header 20 8)⟩ ∧
      membership.localId.get.toNat < field header 28 4 ∧
      readMany (readMember text) (field header 28 4) rest = .ok (membership.endpoints, left) ∧
      membership.endpoints.Nodup := by
  obtain ⟨header, rest, hheader, h⟩ := bind_ok_run h
  split at h
  · cases h
  obtain ⟨runId, behind, hrun, h⟩ := bind_ok_run h
  split at h
  · cases h
  next hsame =>
    dsimp only at h
    split at h
    · cases h
    next hmetadata =>
      obtain ⟨endpoints, behind', hendpoints, h⟩ := bind_ok_run h
      split at h
      · cases h
      next hnodup =>
        cases h
        push Not at hmetadata hsame hnodup
        unfold given at hrun
        cases hfound : headerRun header with
        | error error =>
          rw [hfound] at hrun
          cases hrun
        | ok found =>
          rw [hfound] at hrun
          cases hrun
          exact ⟨header, _, hheader, hsame ▸ hfound, rfl, hmetadata.2.2, hendpoints, hnodup⟩

/-- What is read from a membership that was written, or from the front of it, is that
    membership, and it is one of the same run with each endpoint once. -/
theorem acceptMembership_inv {mine : RendezvousConfig} {runId : RunId}
    {membership found : TcpMembership} {frame bytes : List UInt8}
    (hframe : writeMembership text runId membership = .ok frame) (hfront : bytes <+: frame)
    (hparse : ∀ endpoint ∈ membership.endpoints, text.parse (text.display endpoint) = .ok endpoint)
    (h : acceptMembership text mine bytes = .ok found) :
    found = membership ∧ mine.runId = runId ∧ found.localId.get.toNat < found.endpoints.length ∧
      found.endpoints.length = mine.expectedLocalities ∧
      found.endpoints[found.localId.get.toNat]? = some mine.localEndpoint := by
  obtain ⟨⟨_, left⟩, hread, h⟩ := bind_ok h
  dsimp only at h
  split at h
  · cases h
  next hsize =>
    split at h
    · cases h
    next hown =>
      cases h
      obtain ⟨more, rfl⟩ := hfront
      have hwhole := steady_readMembership text mine.runId hread more
      obtain ⟨hbytes, hcount, hchecked⟩ := writeMembership_ok hframe
      rw [hbytes] at hwhole
      obtain ⟨header, rest, hheader, hrun, hid, hbelow, hendpoints, -⟩ :=
        readMembership_inv hwhole
      rw [readExact_append (membershipHeader_length runId membership)] at hheader
      cases hheader
      rw [membershipHeader_run] at hrun
      cases hrun
      rw [membershipHeader_count hcount] at hbelow hendpoints
      rw [membershipHeader_localId] at hid
      rw [← List.append_nil (membership.endpoints.flatMap _)] at hendpoints
      have hsame : found.endpoints = membership.endpoints := readMany_inv hchecked hparse hendpoints
      have hlocal : found.localId = membership.localId := by
        rw [hid, UInt64.ofNat_toNat]
      refine ⟨?_, rfl, hsame ▸ hbelow, not_not.mp hsize, not_not.mp hown⟩
      cases found
      cases membership
      cases hsame
      cases hlocal
      rfl

/-! ## Addresses that have a text -/

/-- The text of the address is short enough, and parses to it. -/
structure Spoken (text : AddressText) (endpoint : SocketAddr) : Prop where
  parsed : text.parse (text.display endpoint) = .ok endpoint
  written : (ofText (text.display endpoint)).length ≠ 0
  short : (ofText (text.display endpoint)).length ≤ maxEndpointBytes

theorem Spoken.checked {endpoint : SocketAddr} (h : Spoken text endpoint) :
    checkEndpoint text endpoint = .ok () := if_neg (not_lt.mpr h.short)

theorem Spoken.readEndpoint {endpoint : SocketAddr} (h : Spoken text endpoint)
    (rest : List UInt8) :
    readEndpoint text (ofText (text.display endpoint)).length
      (ofText (text.display endpoint) ++ rest) = .ok (endpoint, rest) := by
  rw [readEndpoint_display rest h.checked h.parsed, if_neg h.written]

theorem Spoken.readMember {endpoint : SocketAddr} (h : Spoken text endpoint) (rest : List UInt8) :
    readMember text (endpointBytes text endpoint ++ rest) = .ok (endpoint, rest) := by
  rw [readMember_endpointBytes rest h.checked h.parsed, if_neg h.written]

/-- The header in front of the endpoint of a join. -/
def joinHeader (text : AddressText) (runId : RunId) (endpoint : SocketAddr) : List (List UInt8) :=
  [joinMagic, toLe 16 runId.get.toNat, toLe 2 (ofText (text.display endpoint)).length]

theorem joinHeader_magic (text : AddressText) (runId : RunId) (endpoint : SocketAddr) :
    slice (joinHeader text runId endpoint).flatten 0 4 = joinMagic :=
  have hpart : (joinHeader text runId endpoint)[0]? = some joinMagic := rfl
  Lib.Layouts.slice_part hpart rfl rfl

theorem joinHeader_run (text : AddressText) (runId : RunId) (endpoint : SocketAddr) :
    headerRun (joinHeader text runId endpoint).flatten = .ok runId := by
  have hpart : (joinHeader text runId endpoint)[1]? = some (toLe 16 runId.get.toNat) := rfl
  have hfield : field (joinHeader text runId endpoint).flatten 4 16 = runId.get.toNat :=
    Lib.Layouts.field_part hpart rfl runId.get.isLt
  rw [headerRun, hfield, RunId.new_get]
  rfl

theorem joinHeader_size {endpoint : SocketAddr} (runId : RunId) (h : Spoken text endpoint) :
    field (joinHeader text runId endpoint).flatten 20 2 =
      (ofText (text.display endpoint)).length := by
  have hpart : (joinHeader text runId endpoint)[2]? =
    some (toLe 2 (ofText (text.display endpoint)).length) := rfl
  have hshort := h.short
  unfold maxEndpointBytes at hshort
  exact Lib.Layouts.field_part hpart rfl (by omega)

/-- A join that was written is read back. -/
theorem readJoin_written {endpoint : SocketAddr} (runId : RunId) (h : Spoken text endpoint) :
    ∃ frame, writeJoin text runId endpoint = .ok frame ∧ frame ≠ [] ∧
      readJoin text frame = .ok ((runId, endpoint), []) := by
  refine ⟨(joinHeader text runId endpoint).flatten ++ ofText (text.display endpoint), ?_, ?_, ?_⟩
  · unfold writeJoin
    rw [h.checked]
    simp [joinHeader, endpointBytes, bind, Except.bind, pure, Except.pure]
  · simp [joinHeader, joinMagic]
  · have hlength : (joinHeader text runId endpoint).flatten.length = 22 := by
      simp [joinHeader, joinMagic]
    have hread := h.readEndpoint []
    rw [List.append_nil] at hread
    rw [readJoin, bind_run (readExact_append hlength), if_neg (not_not.mpr (joinHeader_magic _ _ _)),
      bind_run (given_ok (joinHeader_run _ _ _) _), joinHeader_size runId h, bind_run hread]
    rfl

theorem forM_check {values : List SocketAddr}
    (h : ∀ endpoint ∈ values, checkEndpoint text endpoint = .ok ()) :
    values.forM (checkEndpoint text) = .ok () := by
  induction values with
  | nil => rfl
  | cons value values ih =>
    obtain ⟨hvalue, hvalues⟩ := List.forall_mem_cons.mp h
    change (checkEndpoint text value >>= fun _ => values.forM (checkEndpoint text)) = _
    rw [hvalue]
    exact ih hvalues

/-- A client accepts the membership it was meant to get. -/
theorem acceptMembership_written {mine : RendezvousConfig} {membership : TcpMembership}
    (hspoken : ∀ endpoint ∈ membership.endpoints, Spoken text endpoint)
    (hlimit : membership.endpoints.length ≤ maxLocalities)
    (hdistinct : membership.endpoints.Nodup)
    (hsize : membership.endpoints.length = mine.expectedLocalities)
    (hown : membership.endpoints[membership.localId.get.toNat]? = some mine.localEndpoint) :
    ∃ frame, writeMembership text mine.runId membership = .ok frame ∧ frame ≠ [] ∧
      acceptMembership text mine frame = .ok membership := by
  have hbelow : membership.localId.get.toNat < membership.endpoints.length :=
    (List.getElem?_eq_some_iff.mp hown).1
  have hcount : membership.endpoints.length < 2 ^ 32 := by
    unfold maxLocalities at hlimit
    omega
  refine ⟨(membershipHeader mine.runId membership).flatten ++
    membership.endpoints.flatMap (endpointBytes text), ?_, ?_, ?_⟩
  · unfold writeMembership
    rw [if_neg (not_le.mpr hcount), forM_check fun endpoint hmem => (hspoken endpoint hmem).checked]
    simp [membershipHeader, bind, Except.bind, pure, Except.pure]
  · simp [membershipHeader, membershipMagic]
  · have hpart : (membershipHeader mine.runId membership)[0]? = some membershipMagic := rfl
    have hmagic : slice (membershipHeader mine.runId membership).flatten 0 4 = membershipMagic :=
      Lib.Layouts.slice_part hpart rfl rfl
    have hmany := readMany_flatMap (fun endpoint hmem => (hspoken endpoint hmem).readMember) []
    rw [List.append_nil] at hmany
    have hread : readMembership text mine.runId ((membershipHeader mine.runId membership).flatten ++
        membership.endpoints.flatMap (endpointBytes text)) = .ok (membership, []) := by
      rw [readMembership, bind_run (readExact_append (membershipHeader_length _ _)),
        if_neg (not_not.mpr hmagic), bind_run (given_ok (membershipHeader_run _ _) _),
        if_neg (not_not.mpr rfl)]
      dsimp only
      rw [membershipHeader_count hcount, membershipHeader_localId, UInt64.ofNat_toNat,
        if_neg (by omega), bind_run hmany, if_neg (not_not.mpr hdistinct)]
      rfl
    unfold acceptMembership
    rw [hread]
    dsimp only [bind, Except.bind]
    rw [if_neg (not_not.mpr hsize), if_neg (not_not.mpr hown)]

end Hataori.Transport
