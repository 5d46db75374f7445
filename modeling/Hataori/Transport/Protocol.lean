import Hataori.Lib.Bytes
import Hataori.Runtime.Ids

/-!
# Handshake records, parcels and framing

`hataori-runtime-foundation/src/protocol.rs`: the limits of a connection, the
hello two peers exchange, the parcel, and how the two are written and read. A `usize` is a
natural number; where the source checks that a sum or a product fits 64 bits,
so does the model.
-/

namespace Hataori.Transport

open Hataori.Runtime Lib.Bytes

/-- `MessageId`, a nonzero `u128`. -/
structure MessageId where
  get : BitVec 128
  nonzero : get ≠ 0
  deriving Repr

theorem MessageId.get_inj {first second : MessageId} : first.get = second.get ↔ first = second := by
  cases first
  cases second
  simp

instance : DecidableEq MessageId := fun _ _ => decidable_of_iff _ MessageId.get_inj

/-- `TraceId`, a nonzero `u128`. -/
structure TraceId where
  get : BitVec 128
  nonzero : get ≠ 0
  deriving Repr

theorem TraceId.get_inj {first second : TraceId} : first.get = second.get ↔ first = second := by
  cases first
  cases second
  simp

instance : DecidableEq TraceId := fun _ _ => decidable_of_iff _ TraceId.get_inj

/-- `MessageId::new`. -/
def MessageId.new (value : Nat) : Option MessageId :=
  if h : BitVec.ofNat 128 value ≠ 0 then some ⟨_, h⟩ else none

/-- `TraceId::new`. -/
def TraceId.new (value : Nat) : Option TraceId :=
  if h : BitVec.ofNat 128 value ≠ 0 then some ⟨_, h⟩ else none

/-- `Channel`. -/
inductive Channel where
  | control
  | action
  | bulk
  deriving DecidableEq, Repr

/-- `channel as u8`. -/
def Channel.code : Channel → Nat
  | .control => 0
  | .action => 1
  | .bulk => 2

/-- `ParcelKind`. -/
inductive ParcelKind where
  | control
  | data
  | shutdown
  deriving DecidableEq, Repr

/-- `kind as u8`. -/
def ParcelKind.code : ParcelKind → Nat
  | .control => 0
  | .data => 1
  | .shutdown => 2

/-- `ProtocolError`. -/
inductive ProtocolError where
  | invalidMagic
  | invalidVersion (actual : Nat)
  | invalidLength (expected actual : Nat)
  | lengthOverflow
  | zeroId (name : String)
  | invalidChannel (value : Nat)
  | invalidKind (value : Nat)
  | invalidTraceFlag (value : Nat)
  | invalidLimits
  | runMismatch
  | runtimeVersionMismatch
  | actionRegistryMismatch
  | objectRegistryMismatch
  | tooManySegments (actual limit : Nat)
  | payloadTooLarge (actual limit : Nat)
  | frameTooLarge (actual limit : Nat)
  | payloadLengthMismatch (declared actual : Nat)
  | trailingBytes (remaining : Nat)
  deriving DecidableEq, Repr

/-- `Channel::try_from`. -/
def Channel.tryFrom (value : Nat) : Except ProtocolError Channel :=
  if value = 0 then .ok .control
  else if value = 1 then .ok .action
  else if value = 2 then .ok .bulk
  else .error (.invalidChannel value)

/-- `ParcelKind::try_from`. -/
def ParcelKind.tryFrom (value : Nat) : Except ProtocolError ParcelKind :=
  if value = 0 then .ok .control
  else if value = 1 then .ok .data
  else if value = 2 then .ok .shutdown
  else .error (.invalidKind value)

/-- A `usize` that a sum or a product must fit. -/
def checked (value : Nat) : Except ProtocolError Nat :=
  if value < u64Bound then .ok value else .error .lengthOverflow

/-- `u32::try_from`. -/
def checkedU32 (value : Nat) : Except ProtocolError Nat :=
  if value < 2 ^ 32 then .ok value else .error .lengthOverflow

/-- `PARCEL_FIXED_BYTES`. -/
def parcelFixedBytes : Nat := 87

/-- `PROTOCOL_VERSION`. -/
def protocolVersion : Nat := 1

/-! ## Limits and hellos -/

/-- `ProtocolLimits`. -/
structure ProtocolLimits where
  maxFrameBytes : Nat
  maxPayloadBytes : Nat
  maxSegments : Nat
  maxQueuedParcelsPerPeer : Nat
  maxInflightBytesPerPeer : Nat
  controlReservedBytesPerPeer : Nat
  deriving DecidableEq, Repr

/-- `ProtocolLimits::validate`. -/
def ProtocolLimits.validate (limits : ProtocolLimits) : Except ProtocolError ProtocolLimits :=
  if limits.maxFrameBytes < parcelFixedBytes ∨ limits.maxPayloadBytes = 0 ∨
      limits.maxSegments = 0 ∨ limits.maxQueuedParcelsPerPeer = 0 ∨
      limits.maxInflightBytesPerPeer = 0 ∨ limits.controlReservedBytesPerPeer = 0 ∨
      limits.maxInflightBytesPerPeer ≤ limits.controlReservedBytesPerPeer then
    .error .invalidLimits
  else .ok limits

/-- The component-wise minimum `ProtocolLimits::negotiate` validates. -/
def ProtocolLimits.least (limits peer : ProtocolLimits) : ProtocolLimits where
  maxFrameBytes := min limits.maxFrameBytes peer.maxFrameBytes
  maxPayloadBytes := min limits.maxPayloadBytes peer.maxPayloadBytes
  maxSegments := min limits.maxSegments peer.maxSegments
  maxQueuedParcelsPerPeer := min limits.maxQueuedParcelsPerPeer peer.maxQueuedParcelsPerPeer
  maxInflightBytesPerPeer := min limits.maxInflightBytesPerPeer peer.maxInflightBytesPerPeer
  controlReservedBytesPerPeer :=
    min limits.controlReservedBytesPerPeer peer.controlReservedBytesPerPeer

/-- `ProtocolLimits::negotiate`. -/
def ProtocolLimits.negotiate (limits peer : ProtocolLimits) :
    Except ProtocolError ProtocolLimits := do
  let _ ← limits.validate
  let _ ← peer.validate
  (limits.least peer).validate

/-- `RuntimeVersion`. -/
structure RuntimeVersion where
  major : UInt16
  minor : UInt16
  patch : UInt16
  deriving DecidableEq, Repr

/-- `Hello`; the two registry hashes are 32 bytes each. -/
structure Hello where
  runId : RunId
  runtimeVersion : RuntimeVersion
  actionRegistryHash : Vector UInt8 32
  objectRegistryHash : Vector UInt8 32
  capabilities : UInt64
  limits : ProtocolLimits
  deriving DecidableEq

/-- `NegotiatedHello`. -/
structure NegotiatedHello where
  capabilities : UInt64
  limits : ProtocolLimits
  deriving DecidableEq

/-- `Hello::validate_peer`. -/
def Hello.validatePeer (hello peer : Hello) : Except ProtocolError NegotiatedHello :=
  if hello.runId ≠ peer.runId then .error .runMismatch
  else if hello.runtimeVersion ≠ peer.runtimeVersion then .error .runtimeVersionMismatch
  else if hello.actionRegistryHash ≠ peer.actionRegistryHash then .error .actionRegistryMismatch
  else if hello.objectRegistryHash ≠ peer.objectRegistryHash then .error .objectRegistryMismatch
  else
    match hello.limits.negotiate peer.limits with
    | .error error => .error error
    | .ok limits => .ok ⟨hello.capabilities &&& peer.capabilities, limits⟩

/-! ## Parcels -/

/-- `Parcel`. -/
structure Parcel where
  runId : RunId
  messageId : MessageId
  channel : Channel
  kind : ParcelKind
  source : LocalityId
  destination : LocalityId
  traceId : Option TraceId
  segments : Segments
  deriving DecidableEq, Repr

namespace Parcel

/-- The bytes of all segments. -/
def payload (parcel : Parcel) : Nat := (parcel.segments.map List.length).sum

/-- The bytes of an encoded parcel. -/
def frame (parcel : Parcel) : Nat := parcelFixedBytes + parcel.segments.length * 8 + parcel.payload

/-- `Parcel::payload_len`. The partial sums only grow, so the sum is checked once. -/
def payloadLen (parcel : Parcel) : Except ProtocolError Nat := checked parcel.payload

/-- `Parcel::encoded_len`. -/
def encodedLen (parcel : Parcel) : Except ProtocolError Nat := do
  let _ ← parcel.payloadLen
  let _ ← checked (parcel.segments.length * 8)
  checked parcel.frame

/-- `Parcel::validate`. -/
def validate (parcel : Parcel) (limits : ProtocolLimits) : Except ProtocolError Unit := do
  let _ ← limits.validate
  if limits.maxSegments < parcel.segments.length then
    .error (.tooManySegments parcel.segments.length limits.maxSegments)
  let payload ← parcel.payloadLen
  if limits.maxPayloadBytes < payload then
    .error (.payloadTooLarge payload limits.maxPayloadBytes)
  let frame ← parcel.encodedLen
  if limits.maxFrameBytes < frame then
    .error (.frameTooLarge frame limits.maxFrameBytes)

end Parcel

/-- `PARCEL_MAGIC`, `b"HTPR"`. -/
def parcelMagic : List UInt8 := [72, 84, 80, 82]

/-- The trace flag and the trace id of a parcel. -/
def traceBytes : Option TraceId → List UInt8
  | some traceId => 1 :: toLe 16 traceId.get.toNat
  | none => 0 :: toLe 16 0

/-- The bytes `encode_parcel` writes. -/
def parcelBytes (parcel : Parcel) : List UInt8 :=
  parcelMagic ++ toLe 4 protocolVersion ++ toLe 16 parcel.runId.get.toNat ++
    toLe 16 parcel.messageId.get.toNat ++ toLe 1 parcel.channel.code ++ toLe 1 parcel.kind.code ++
    toLe 8 parcel.source.get.toNat ++ toLe 8 parcel.destination.get.toNat ++
    traceBytes parcel.traceId ++ toLe 8 parcel.payload ++ toLe 4 parcel.segments.length ++
    (parcel.segments.flatMap fun segment => toLe 8 segment.length) ++ parcel.segments.flatten

/-- `encode_parcel`. -/
def encodeParcel (parcel : Parcel) (limits : ProtocolLimits) :
    Except ProtocolError (List UInt8) := do
  parcel.validate limits
  let _ ← parcel.encodedLen
  let _ ← checkedU32 parcel.segments.length
  return parcelBytes parcel

/-! ## Reading -/

/-- `Reader`. -/
structure Reader where
  bytes : List UInt8
  offset : Nat

namespace Reader

/-- `Reader::take`. -/
def take (input : Reader) (length : Nat) : Except ProtocolError (List UInt8 × Reader) :=
  if u64Bound ≤ input.offset + length then .error .lengthOverflow
  else if input.bytes.length < input.offset + length then
    .error (.invalidLength (input.offset + length) input.bytes.length)
  else .ok (slice input.bytes input.offset length, { input with offset := input.offset + length })

/-- `Reader::u8` to `Reader::u128`: a number of `width` bytes. -/
def number (input : Reader) (width : Nat) : Except ProtocolError (Nat × Reader) := do
  let (bytes, input) ← input.take width
  return (ofLe bytes, input)

/-- `Reader::finish`. -/
def finish (input : Reader) : Except ProtocolError Unit :=
  if input.offset = input.bytes.length then .ok ()
  else .error (.trailingBytes (input.bytes.length - input.offset))

/-- The loop of `decode_parcel` over the segment table. -/
def lengths (limits : ProtocolLimits) :
    Nat → Nat → Reader → Except ProtocolError (List Nat × Nat × Reader)
  | 0, total, input => .ok ([], total, input)
  | count + 1, total, input => do
    let (length, input) ← input.number 8
    let total ← checked (total + length)
    if limits.maxPayloadBytes < total then
      .error (.payloadTooLarge total limits.maxPayloadBytes)
    let (rest, total, input) ← lengths limits count total input
    return (length :: rest, total, input)

/-- The loop of `decode_parcel` over the segments. -/
def segments : List Nat → Reader → Except ProtocolError (Segments × Reader)
  | [], input => .ok ([], input)
  | length :: rest, input => do
    let (segment, input) ← input.take length
    let (more, input) ← segments rest input
    return (segment :: more, input)

end Reader

/-- A checked id. -/
def idOr {α : Type} (name : String) : Option α → Except ProtocolError α
  | some id => .ok id
  | none => .error (.zeroId name)

/-- The match on the trace flag. -/
def decodeTrace (flag value : Nat) : Except ProtocolError (Option TraceId) :=
  if flag = 0 ∧ value = 0 then .ok none
  else if flag = 1 then do
    let traceId ← idOr "TraceId" (TraceId.new value)
    return some traceId
  else .error (.invalidTraceFlag flag)

/-- `decode_parcel`. -/
def decodeParcel (bytes : List UInt8) (limits : ProtocolLimits) :
    Except ProtocolError Parcel := do
  let _ ← limits.validate
  if limits.maxFrameBytes < bytes.length then
    .error (.frameTooLarge bytes.length limits.maxFrameBytes)
  let (magic, input) ← Reader.take ⟨bytes, 0⟩ 4
  if magic ≠ parcelMagic then .error .invalidMagic
  let (version, input) ← input.number 4
  if version ≠ protocolVersion then .error (.invalidVersion version)
  let (run, input) ← input.number 16
  let runId ← idOr "RunId" (RunId.new run)
  let (message, input) ← input.number 16
  let messageId ← idOr "MessageId" (MessageId.new message)
  let (channel, input) ← input.number 1
  let channel ← Channel.tryFrom channel
  let (kind, input) ← input.number 1
  let kind ← ParcelKind.tryFrom kind
  let (source, input) ← input.number 8
  let (destination, input) ← input.number 8
  let (traceFlag, input) ← input.number 1
  let (traceValue, input) ← input.number 16
  let traceId ← decodeTrace traceFlag traceValue
  let (declared, input) ← input.number 8
  let (count, input) ← input.number 4
  if limits.maxSegments < count then .error (.tooManySegments count limits.maxSegments)
  if limits.maxPayloadBytes < declared then
    .error (.payloadTooLarge declared limits.maxPayloadBytes)
  let (lengths, total, input) ← input.lengths limits count 0
  if total ≠ declared then .error (.payloadLengthMismatch declared total)
  let (segments, input) ← input.segments lengths
  input.finish
  let parcel : Parcel :=
    { runId := runId
      messageId := messageId
      channel := channel
      kind := kind
      source := ⟨UInt64.ofNat source⟩
      destination := ⟨UInt64.ofNat destination⟩
      traceId := traceId
      segments := segments }
  parcel.validate limits
  return parcel

/-! ## Hellos on the wire -/

/-- `HELLO_MAGIC`, `b"HTHL"`. -/
def helloMagic : List UInt8 := [72, 84, 72, 76]

/-- `HELLO_BYTES`. -/
def helloByteCount : Nat := 142

/-- The bytes `encode_hello` writes. -/
def helloBytes (hello : Hello) : List UInt8 :=
  helloMagic ++ toLe 4 protocolVersion ++ toLe 16 hello.runId.get.toNat ++
    toLe 2 hello.runtimeVersion.major.toNat ++ toLe 2 hello.runtimeVersion.minor.toNat ++
    toLe 2 hello.runtimeVersion.patch.toNat ++ hello.actionRegistryHash.toList ++
    hello.objectRegistryHash.toList ++ toLe 8 hello.capabilities.toNat ++
    toLe 8 hello.limits.maxFrameBytes ++ toLe 8 hello.limits.maxPayloadBytes ++
    toLe 4 hello.limits.maxSegments ++ toLe 4 hello.limits.maxQueuedParcelsPerPeer ++
    toLe 8 hello.limits.maxInflightBytesPerPeer ++ toLe 8 hello.limits.controlReservedBytesPerPeer

/-- `encode_hello`. -/
def encodeHello (hello : Hello) : Except ProtocolError (List UInt8) := do
  let _ ← hello.limits.validate
  let _ ← checked hello.limits.maxFrameBytes
  let _ ← checked hello.limits.maxPayloadBytes
  let _ ← checkedU32 hello.limits.maxSegments
  let _ ← checkedU32 hello.limits.maxQueuedParcelsPerPeer
  let _ ← checked hello.limits.maxInflightBytesPerPeer
  let _ ← checked hello.limits.controlReservedBytesPerPeer
  return helloBytes hello

/-- `Reader::array_32`. -/
def Reader.array32 (input : Reader) : Except ProtocolError (Vector UInt8 32 × Reader) := do
  let (bytes, input) ← input.take 32
  if h : bytes.length = 32 then return (⟨bytes.toArray, by simpa using h⟩, input)
  else .error (.invalidLength 32 bytes.length)

/-- `decode_hello`. -/
def decodeHello (bytes : List UInt8) : Except ProtocolError Hello := do
  if bytes.length ≠ helloByteCount then
    .error (.invalidLength helloByteCount bytes.length)
  let (magic, input) ← Reader.take ⟨bytes, 0⟩ 4
  if magic ≠ helloMagic then .error .invalidMagic
  let (version, input) ← input.number 4
  if version ≠ protocolVersion then .error (.invalidVersion version)
  let (run, input) ← input.number 16
  let runId ← idOr "RunId" (RunId.new run)
  let (major, input) ← input.number 2
  let (minor, input) ← input.number 2
  let (patch, input) ← input.number 2
  let (actionRegistryHash, input) ← input.array32
  let (objectRegistryHash, input) ← input.array32
  let (capabilities, input) ← input.number 8
  let (maxFrameBytes, input) ← input.number 8
  let (maxPayloadBytes, input) ← input.number 8
  let (maxSegments, input) ← input.number 4
  let (maxQueuedParcelsPerPeer, input) ← input.number 4
  let (maxInflightBytesPerPeer, input) ← input.number 8
  let (controlReservedBytesPerPeer, input) ← input.number 8
  let limits ← ProtocolLimits.validate
    { maxFrameBytes := maxFrameBytes
      maxPayloadBytes := maxPayloadBytes
      maxSegments := maxSegments
      maxQueuedParcelsPerPeer := maxQueuedParcelsPerPeer
      maxInflightBytesPerPeer := maxInflightBytesPerPeer
      controlReservedBytesPerPeer := controlReservedBytesPerPeer }
  input.finish
  return {
    runId := runId
    runtimeVersion := ⟨UInt16.ofNat major, UInt16.ofNat minor, UInt16.ofNat patch⟩
    actionRegistryHash := actionRegistryHash
    objectRegistryHash := objectRegistryHash
    capabilities := UInt64.ofNat capabilities
    limits := limits }

end Hataori.Transport
