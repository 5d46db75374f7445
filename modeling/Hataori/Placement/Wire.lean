import Hataori.Lib.Bytes
import Hataori.Pmap.Protocol

/-!
# Headers, payloads and failures of the placement collectives

The parts of `src/src/wire.rs` that `src/src/placement.rs` uses, with the texts of their
errors, and the failures it reports. Serialization itself is a parameter.
-/

namespace Hataori.Placement

open Lib.Bytes Hataori.Pmap

/-! ## Headers -/

/-- `MessageKind`. -/
inductive MessageKind where
  | ready
  | task
  | result
  | stop
  | drain
  | broadcast
  | scatter
  | gather
  deriving DecidableEq, Repr

namespace MessageKind

/-- `MessageKind::code`. -/
def code : MessageKind → UInt8
  | .ready => 0
  | .task => 1
  | .result => 2
  | .stop => 3
  | .drain => 4
  | .broadcast => 5
  | .scatter => 6
  | .gather => 7

/-- The derived `Debug`. -/
def debug : MessageKind → String
  | .ready => "Ready"
  | .task => "Task"
  | .result => "Result"
  | .stop => "Stop"
  | .drain => "Drain"
  | .broadcast => "Broadcast"
  | .scatter => "Scatter"
  | .gather => "Gather"

end MessageKind

/-- `MessageStatus`. -/
inductive MessageStatus where
  | none
  | ok
  | error
  deriving DecidableEq, Repr

namespace MessageStatus

/-- `MessageStatus::code`. -/
def code : MessageStatus → UInt8
  | .none => 0
  | .ok => 1
  | .error => 2

/-- The derived `Debug`. -/
def debug : MessageStatus → String
  | .none => "None"
  | .ok => "Ok"
  | .error => "Error"

end MessageStatus

/-- `WireError`, of the variants these functions return. -/
inductive WireError where
  | invalidHeaderSize (actual : Nat)
  | invalidVersion (expected actual : Nat)
  | invalidKind (value : UInt8)
  | invalidStatus (value : UInt8)
  | statusKindMismatch (kind : MessageKind) (status : MessageStatus)
  | payloadTooLarge (bytes : Nat)
  | countOverflow (count : Nat)
  | usizeOverflow (length : Nat)
  | encode (detail : String)
  | decode (detail : String)
  | trailingBytes (used total : Nat)
  deriving DecidableEq, Repr

/-- `Display` of a `WireError`. -/
def WireError.display : WireError → String
  | .invalidHeaderSize actual => "invalid wire header size: " ++ toString actual
  | .invalidVersion expected actual =>
    "invalid wire version: expected " ++ toString expected ++ ", got " ++ toString actual
  | .invalidKind value => "invalid wire message kind: " ++ toString value
  | .invalidStatus value => "invalid wire message status: " ++ toString value
  | .statusKindMismatch kind status =>
    "wire status is incompatible with message kind: " ++ kind.debug ++ "/" ++ status.debug
  | .payloadTooLarge bytes => "wire payload is too large: " ++ toString bytes ++ " bytes"
  | .countOverflow count => "MPI count overflows i32: " ++ toString count
  | .usizeOverflow length => "wire length overflows usize: " ++ toString length
  | .encode detail => "wire payload encoding failed: " ++ truncateMessage detail
  | .decode detail => "wire payload decoding failed: " ++ truncateMessage detail
  | .trailingBytes used total =>
    "wire payload has trailing bytes: used " ++ toString used ++ " of " ++ toString total

/-- `MessageKind::try_from`. -/
def MessageKind.tryFrom (value : UInt8) : Except WireError MessageKind :=
  if value = 0 then .ok .ready
  else if value = 1 then .ok .task
  else if value = 2 then .ok .result
  else if value = 3 then .ok .stop
  else if value = 4 then .ok .drain
  else if value = 5 then .ok .broadcast
  else if value = 6 then .ok .scatter
  else if value = 7 then .ok .gather
  else .error (.invalidKind value)

/-- `MessageStatus::try_from`. -/
def MessageStatus.tryFrom (value : UInt8) : Except WireError MessageStatus :=
  if value = 0 then .ok .none
  else if value = 1 then .ok .ok
  else if value = 2 then .ok .error
  else .error (.invalidStatus value)

/-- `PROTOCOL_VERSION`. -/
def protocolVersion : Nat := 1

/-- `MAX_WIRE_BYTES`, which is `i32::MAX`. -/
def maxWireBytes : Nat := 2 ^ 31 - 1

/-- `usize::MAX` on the 64-bit targets. -/
def usizeMax : Nat := 2 ^ 64 - 1

/-- `HEADER_LEN`. -/
def headerLen : Nat := 28

/-- `validate_status`. -/
def validateStatus (kind : MessageKind) (status : MessageStatus) : Except WireError Unit :=
  let valid : Bool := match kind with
    | .result => decide (status = .ok ∨ status = .error)
    | _ => decide (status = .none)
  if valid then .ok () else .error (.statusKindMismatch kind status)

/-- `validate_payload_len`. -/
def validatePayloadLen (payloadLen : Nat) : Except WireError Unit :=
  if payloadLen ≤ maxWireBytes then .ok () else .error (.payloadTooLarge payloadLen)

/-- `Header`. -/
structure Header where
  version : Nat
  kind : MessageKind
  status : MessageStatus
  batchId : Nat
  itemCount : Nat
  payloadLen : Nat
  deriving DecidableEq, Repr

namespace Header

/-- `Header::new`. -/
def new (kind : MessageKind) (status : MessageStatus) (batchId itemCount payloadLen : Nat) :
    Except WireError Header := do
  validateStatus kind status
  validatePayloadLen payloadLen
  return ⟨protocolVersion, kind, status, batchId, itemCount, payloadLen⟩

/-- `Header::encode`. -/
def encode (header : Header) : List UInt8 :=
  toLe 2 header.version ++ ([header.kind.code] ++ ([header.status.code] ++
    (toLe 8 header.batchId ++ (toLe 8 header.itemCount ++ toLe 8 header.payloadLen))))

/-- `Header::decode`. -/
def decode (bytes : List UInt8) : Except WireError Header := do
  if bytes.length ≠ headerLen then throw (.invalidHeaderSize bytes.length)
  let version := field bytes 0 2
  if version ≠ protocolVersion then throw (.invalidVersion protocolVersion version)
  let kind ← MessageKind.tryFrom (bytes.getD 2 0)
  let status ← MessageStatus.tryFrom (bytes.getD 3 0)
  validateStatus kind status
  let batchId := field bytes 4 8
  let itemCount := field bytes 12 8
  let payloadLen := field bytes 20 8
  validatePayloadLen payloadLen
  return ⟨version, kind, status, batchId, itemCount, payloadLen⟩

end Header

/-! ## Payloads -/

/-- `bincode` on the values of one rank: the bytes of a value, and the value at the front
    of some bytes with the number of bytes it takes. -/
structure Codec (T : Type) where
  serialize : T → Except String (List UInt8)
  deserialize : List UInt8 → Except String (T × Nat)

variable {T : Type}

/-- `encode_payload`. -/
def encodePayload (codec : Codec T) (value : T) : Except WireError (List UInt8) :=
  match codec.serialize value with
  | .error error => .error (.encode (truncateMessage error))
  | .ok bytes => (validatePayloadLen bytes.length).map fun _ => bytes

/-- `decode_payload`. -/
def decodePayload (codec : Codec T) (bytes : List UInt8) : Except WireError T := do
  validatePayloadLen bytes.length
  match codec.deserialize bytes with
  | .error error => throw (.decode (truncateMessage error))
  | .ok (value, used) =>
    if used ≠ bytes.length then throw (.trailingBytes used bytes.length)
    return value

/-- `checked_mpi_count`. -/
def checkedMpiCount (value : Nat) : Except WireError Nat :=
  if value ≤ maxWireBytes then .ok value else .error (.countOverflow value)

/-- `checked_usize_length`. -/
def checkedUsizeLength (value : Nat) : Except WireError Nat :=
  if value ≤ usizeMax then .ok value else .error (.usizeOverflow value)

/-! ## Failures -/

/-- `PlacementErrorKind`. -/
inductive PlacementErrorKind where
  | preflight
  | wire
  | protocol
  deriving DecidableEq, Repr

namespace PlacementErrorKind

/-- `PlacementErrorKind::code`. -/
def code : PlacementErrorKind → Int
  | .preflight => 0
  | .wire => 1
  | .protocol => 2

/-- `PlacementErrorKind::from_code`. -/
def fromCode (code : Int) : Option PlacementErrorKind :=
  if code = 0 then some .preflight
  else if code = 1 then some .wire
  else if code = 2 then some .protocol
  else none

theorem fromCode_code (kind : PlacementErrorKind) : fromCode kind.code = some kind := by
  cases kind <;> rfl

end PlacementErrorKind

theorem utf8ByteSize_takeBytes (budget : Nat) (text : List Char) :
    (String.ofList (takeBytes budget text)).utf8ByteSize ≤ budget := by
  induction text generalizing budget with
  | nil => simp [takeBytes]
  | cons c rest ih =>
    unfold takeBytes
    split
    · next hfits =>
      have hrest := ih (budget - c.utf8Size)
      have hsplit : String.ofList (c :: takeBytes (budget - c.utf8Size) rest) =
          String.singleton c ++ String.ofList (takeBytes (budget - c.utf8Size) rest) := by
        rw [String.singleton_eq_ofList, ← String.ofList_append]
        rfl
      rw [hsplit, String.utf8ByteSize_append, String.utf8ByteSize_singleton]
      omega
    · simp

/-- `Failure`: its message is never longer than the limit. -/
structure Failure where
  kind : PlacementErrorKind
  message : String
  bounded : message.utf8ByteSize ≤ maxErrorMessageBytes

/-- `Failure::new`. -/
def Failure.new (kind : PlacementErrorKind) (message : String) : Failure :=
  ⟨kind, truncateMessage message, utf8ByteSize_takeBytes _ _⟩

/-- `PlacementError`. -/
structure PlacementError where
  kind : PlacementErrorKind
  rank : Option Int
  message : String
  deriving DecidableEq, Repr

/-- `PlacementError::new`. -/
def PlacementError.new (kind : PlacementErrorKind) (rank : Option Int) (message : String) :
    PlacementError :=
  ⟨kind, rank, truncateMessage message⟩

end Hataori.Placement
