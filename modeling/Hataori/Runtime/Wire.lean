import Hataori.Runtime.Builder
import Hataori.Runtime.Formats
import Hataori.Runtime.Placement

/-!
# Runtime messages on the wire

`decode` and `validate_shape` of `hataori-runtime/src/wire.rs`, with every index checked, against
the parcels that `Shared::send` builds of the messages of `runtime.rs` and `dedup.rs`.
-/

namespace Hataori.Runtime

open Hataori.Object Hataori.Transport Node Lib.Bytes Lib.Layouts

/-! ## Reading a parcel -/

/-- `WireError`. -/
inductive WireError where
  | headerLength (length : Nat)
  | magic
  | version (version : UInt8)
  | invalidKind (value : UInt8)
  | reserved
  | zeroRequest
  | zeroAction
  | channel
  | identity
  | unexpectedDeadline
  | unexpectedPayload
  | errorPayload
  deriving DecidableEq, Repr

/-- `RuntimeMessageKind::try_from`. -/
def RuntimeMessageKind.tryFrom (value : UInt8) : Except WireError RuntimeMessageKind :=
  if value = 1 then .ok .request
  else if value = 2 then .ok .success
  else if value = 3 then .ok .failure
  else if value = 4 then .ok .cancel
  else if value = 5 then .ok .cancelled
  else if value = 6 then .ok .duplicateResultUnavailable
  else if value = 7 then .ok .moved
  else .error (.invalidKind value)

/-- `bytes[start..start + width]`; `none` is the panic of an index out of range. -/
def bytesAt (bytes : List UInt8) (start width : Nat) : Option (List UInt8) :=
  if start + width ≤ bytes.length then some (slice bytes start width) else none

/-- `from_le_bytes` of such bytes. -/
def numberAt (bytes : List UInt8) (start width : Nat) : Option Nat :=
  (bytesAt bytes start width).map ofLe

/-- The last `match` of `validate_shape`. -/
def validatePayload (kind : RuntimeMessageKind) (payload : Segments) :
    Option (Except WireError Unit) :=
  match kind with
  | .request => some (.ok ())
  | .success => some (.ok ())
  | .moved =>
    if payload.length ≠ 2 then some (.error .errorPayload)
    else do
      let first ← payload[0]?
      if first.length ≠ 32 then some (.error .errorPayload)
      else do
        let second ← payload[1]?
        if second.length ≠ 32 then some (.error .errorPayload) else some (.ok ())
  | .failure =>
    if payload.length ≠ 1 then some (.error .errorPayload)
    else do
      let text ← payload[0]?
      if maxErrorBytes < text.length then some (.error .errorPayload)
      else if (toText text).isNone then some (.error .errorPayload)
      else some (.ok ())
  | _ => if payload ≠ [] then some (.error .unexpectedPayload) else some (.ok ())

/-- `validate_shape`. -/
def validateShape (kind : RuntimeMessageKind) (parcel : Parcel) (request : RequestId)
    (deadlineMs : Nat) (payload : Segments) : Option (Except WireError Unit) :=
  let expectedChannel := if kind = .cancel then Channel.control else .action
  let expectedParcelKind := if kind = .cancel then ParcelKind.control else .data
  if parcel.channel ≠ expectedChannel ∨ parcel.kind ≠ expectedParcelKind then some (.error .channel)
  else
    let party := if kind = .request ∨ kind = .cancel then parcel.source else parcel.destination
    if party ≠ request.origin then some (.error .identity)
    else if (kind = .request ∧ deadlineMs = 0) ∨ (kind ≠ .request ∧ deadlineMs ≠ 0) then
      some (.error .unexpectedDeadline)
    else validatePayload kind payload

/-- `wire::decode`; `none` is a panic. -/
def decode (parcel : Parcel) : Option (Except WireError RuntimeMessage) :=
  match parcel.segments with
  | [] => some (.error (.headerLength 0))
  | header :: payload =>
    if header.length ≠ wireHeaderBytes then some (.error (.headerLength header.length))
    else do
      let magic ← bytesAt header 0 4
      if magic ≠ runtimeMagic then some (.error .magic)
      else do
        let version ← header[4]?
        if version ≠ 1 then some (.error (.version version))
        else do
          let code ← header[5]?
          match RuntimeMessageKind.tryFrom code with
          | .error error => some (.error error)
          | .ok kind => do
            let reserved ← bytesAt header 6 2
            if reserved ≠ [0, 0] then some (.error .reserved)
            else do
              let origin ← numberAt header 8 8
              let sequence ← numberAt header 16 8
              match RequestId.new ⟨UInt64.ofNat origin⟩ sequence with
              | none => some (.error .zeroRequest)
              | some request => do
                let action ← numberAt header 24 16
                match ActionId.new action with
                | none => some (.error .zeroAction)
                | some action => do
                  let domain ← numberAt header 40 4
                  let deadlineMs ← numberAt header 44 8
                  match ← validateShape kind parcel request deadlineMs payload with
                  | .error error => some (.error error)
                  | .ok () =>
                    some (.ok ⟨kind, request, action, ⟨UInt32.ofNat domain⟩, deadlineMs, payload⟩)

/-! ## Messages that have their shape -/

/-- What the payload of a message of each kind is. -/
def PayloadShaped : RuntimeMessageKind → Segments → Prop
  | .request, _ => True
  | .success, _ => True
  | .failure, payload =>
    ∃ text : String, payload = [ofText text] ∧ text.utf8ByteSize ≤ maxErrorBytes
  | .moved, payload => ∃ first second, payload = [first, second] ∧ first.length = 32 ∧
    second.length = 32
  | _, payload => payload = []

/-- The parcel goes where `send` puts the message and between whom it sends it, and the message
    keeps the rules of its kind. -/
structure Shaped (message : RuntimeMessage) (parcel : Parcel) : Prop where
  channel : parcel.channel = if message.kind = .cancel then .control else .action
  kind : parcel.kind = if message.kind = .cancel then .control else .data
  source : message.kind = .request ∨ message.kind = .cancel →
    parcel.source = message.request.origin
  destination : ¬(message.kind = .request ∨ message.kind = .cancel) →
    parcel.destination = message.request.origin
  deadline : message.kind = .request ↔ message.deadlineMs ≠ 0
  payload : PayloadShaped message.kind message.payload

theorem failure_shaped {bytes : List UInt8} :
    PayloadShaped .failure [bytes] ↔ bytes.length ≤ maxErrorBytes ∧ (toText bytes).isSome := by
  constructor
  · rintro ⟨text, hpayload, hfits⟩
    cases hpayload
    rw [length_ofText, toText_ofText]
    exact ⟨hfits, rfl⟩
  · rintro ⟨hfits, htext⟩
    obtain ⟨text, htext⟩ := Option.isSome_iff_exists.mp htext
    have hbytes := ofText_toText htext
    refine ⟨text, by rw [hbytes], ?_⟩
    rwa [← length_ofText, hbytes]

/-- The check of a payload accepts exactly what has the shape, and no index of it is out of range. -/
theorem validatePayload_iff (kind : RuntimeMessageKind) (payload : Segments) :
    validatePayload kind payload ≠ none ∧
      (validatePayload kind payload = some (.ok ()) ↔ PayloadShaped kind payload) := by
  have hempty : (if payload ≠ [] then some (.error .unexpectedPayload) else some (.ok ()) :
      Option (Except WireError Unit)) ≠ none ∧
      ((if payload ≠ [] then some (.error .unexpectedPayload) else some (.ok ()) :
        Option (Except WireError Unit)) = some (.ok ()) ↔ payload = []) := by
    by_cases hnil : payload = []
    · simp [hnil]
    · simp [hnil]
  cases kind with
  | request => simp [validatePayload, PayloadShaped]
  | success => simp [validatePayload, PayloadShaped]
  | cancel => exact hempty
  | cancelled => exact hempty
  | duplicateResultUnavailable => exact hempty
  | failure =>
    match payload with
    | [] => simp [validatePayload, PayloadShaped]
    | [bytes] =>
      rw [failure_shaped]
      simp only [validatePayload, List.length_singleton, ne_eq, not_true_eq_false, if_false,
        List.getElem?_cons_zero, Option.bind_some, bind]
      rcases Nat.lt_or_ge maxErrorBytes bytes.length with hlarge | hfits
      · simp [hlarge]
      · rw [if_neg (not_lt.mpr hfits)]
        cases toText bytes with
        | none => simp
        | some text => simp [hfits]
    | first :: second :: rest => simp [validatePayload, PayloadShaped]
  | moved =>
    match payload with
    | [] => simp [validatePayload, PayloadShaped]
    | [first] => simp [validatePayload, PayloadShaped]
    | [first, second] =>
      by_cases hfirst : first.length = 32
      · by_cases hsecond : second.length = 32
        · simp [validatePayload, PayloadShaped, hfirst, hsecond]
        · simp [validatePayload, PayloadShaped, hsecond]
      · simp [validatePayload, PayloadShaped, hfirst]
    | first :: second :: third :: rest => simp [validatePayload, PayloadShaped]

/-- So is the check of the whole shape. -/
theorem validateShape_iff (message : RuntimeMessage) (parcel : Parcel) :
    validateShape message.kind parcel message.request message.deadlineMs message.payload ≠ none ∧
      (validateShape message.kind parcel message.request message.deadlineMs message.payload =
        some (.ok ()) ↔ Shaped message parcel) := by
  obtain ⟨htotal, hpayload⟩ := validatePayload_iff message.kind message.payload
  unfold validateShape
  generalize hchannel : (if message.kind = .cancel then Channel.control else .action) = channel
  generalize hkind : (if message.kind = .cancel then ParcelKind.control else .data) = kind
  generalize hparty : (if message.kind = .request ∨ message.kind = .cancel then parcel.source
    else parcel.destination) = party
  dsimp only
  split
  next hwrong =>
    refine ⟨by simp, ⟨nofun, fun h => ?_⟩⟩
    rw [← hchannel, ← hkind] at hwrong
    exact absurd ⟨h.channel, h.kind⟩ (not_and_or.mpr hwrong)
  next hright =>
  obtain ⟨hrightChannel, hrightKind⟩ := not_or.mp hright
  split
  next hforeign =>
    refine ⟨by simp, ⟨nofun, fun h => ?_⟩⟩
    split at hparty
    next hsends => exact absurd (hparty.symm.trans (h.source hsends)) hforeign
    next hanswers => exact absurd (hparty.symm.trans (h.destination hanswers)) hforeign
  next horigin =>
  split
  next hdeadline =>
    refine ⟨by simp, ⟨nofun, fun h => ?_⟩⟩
    have hrule := h.deadline
    tauto
  next hdeadline =>
  refine ⟨htotal, hpayload.trans ⟨fun hshape => ?_, fun h => h.payload⟩⟩
  refine ⟨hchannel ▸ not_not.mp hrightChannel, hkind ▸ not_not.mp hrightKind, fun hsends => ?_,
    fun hanswers => ?_, by tauto, hshape⟩
  · rw [if_pos hsends] at hparty
    exact hparty.trans (not_not.mp horigin)
  · rw [if_neg hanswers] at hparty
    exact hparty.trans (not_not.mp horigin)

/-! ## What is accepted -/

variable {bytes : List UInt8} {start width : Nat} {parcel : Parcel} {message : RuntimeMessage}

theorem bytesAt_ok (h : start + width ≤ bytes.length) :
    bytesAt bytes start width = some (slice bytes start width) := if_pos h

theorem numberAt_ok (h : start + width ≤ bytes.length) :
    numberAt bytes start width = some (field bytes start width) := by
  rw [numberAt, bytesAt_ok h]
  rfl

theorem byte_ok (h : start < bytes.length) : bytes[start]? = some (bytes.getD start 0) := by
  rw [List.getD_eq_getElem?_getD, List.getElem?_eq_getElem h, Option.getD_some]

/-- Every index of `decode` is within the header, or within the payload. -/
theorem decode_total (parcel : Parcel) : decode parcel ≠ none := by
  unfold decode
  split
  · simp
  next header payload _ =>
  split
  · simp
  next hlength =>
  have hsize : header.length = 52 := not_not.mp hlength
  simp (disch := omega) only [bytesAt_ok, numberAt_ok, byte_ok, Option.bind_some, bind]
  split
  · simp
  split
  · simp
  split
  · simp
  next kind _ =>
  split
  · simp
  split
  · simp
  next request _ =>
  split
  · simp
  next action _ =>
  have htotal := (validateShape_iff ⟨kind, request, action, ⟨UInt32.ofNat (field header 40 4)⟩,
    field header 44 8, payload⟩ parcel).1
  obtain ⟨result, hresult⟩ := Option.ne_none_iff_exists'.mp htotal
  rw [hresult, Option.bind_some]
  cases result with
  | error error => simp
  | ok _ => simp

/-- The parts of the header of a message. -/
def messageParts (message : RuntimeMessage) : List (List UInt8) :=
  [runtimeMagic, [1], [message.kind.code], [0, 0], toLe 8 message.request.origin.get.toNat,
    toLe 8 message.request.sequence.toNat, toLe 16 message.action.get.toNat,
    toLe 4 message.domain.get.toNat, toLe 8 message.deadlineMs]

theorem message_encode (message : RuntimeMessage) :
    message.encode = (messageParts message).flatten :: message.payload := by
  simp [RuntimeMessage.encode, messageParts]

theorem tryFrom_code (kind : RuntimeMessageKind) :
    RuntimeMessageKind.tryFrom kind.code = .ok kind := by
  cases kind <;> rfl

theorem code_tryFrom {value : UInt8} {kind : RuntimeMessageKind}
    (h : RuntimeMessageKind.tryFrom value = .ok kind) : kind.code = value := by
  unfold RuntimeMessageKind.tryFrom at h
  split at h
  next hvalue => cases h; exact hvalue.symm
  split at h
  next hvalue => cases h; exact hvalue.symm
  split at h
  next hvalue => cases h; exact hvalue.symm
  split at h
  next hvalue => cases h; exact hvalue.symm
  split at h
  next hvalue => cases h; exact hvalue.symm
  split at h
  next hvalue => cases h; exact hvalue.symm
  split at h
  next hvalue => cases h; exact hvalue.symm
  cases h

/-- A message in a parcel of its shape is read as it was. -/
theorem decode_encode (hsegments : parcel.segments = message.encode)
    (hdeadline : message.deadlineMs < u64Bound) (hshaped : Shaped message parcel) :
    decode parcel = some (.ok message) := by
  have hlengths : (messageParts message).map List.length = [4, 1, 1, 2, 8, 8, 16, 4, 8] := by
    simp [messageParts, runtimeMagic]
  have hlength : (messageParts message).flatten.length = wireHeaderBytes := by
    rw [List.length_flatten, hlengths]
    rfl
  have hsize : (messageParts message).flatten.length = 52 := hlength
  have hmagic : slice (messageParts message).flatten 0 4 = runtimeMagic :=
    @slice_part _ _ 0 _ _ rfl (offset_eq hlengths 0) rfl
  have hversion : (messageParts message).flatten.getD 4 0 = 1 :=
    @getD_part _ 1 _ _ rfl (offset_eq hlengths 1)
  have hcode : (messageParts message).flatten.getD 5 0 = message.kind.code :=
    @getD_part _ 2 _ _ rfl (offset_eq hlengths 2)
  have hreserved : slice (messageParts message).flatten 6 2 = [0, 0] :=
    @slice_part _ _ 3 _ _ rfl (offset_eq hlengths 3) rfl
  have horigin : field (messageParts message).flatten 8 8 = message.request.origin.get.toNat :=
    @field_part _ 4 _ _ _ rfl (offset_eq hlengths 4) message.request.origin.get.toNat_lt
  have hsequence : field (messageParts message).flatten 16 8 = message.request.sequence.toNat :=
    @field_part _ 5 _ _ _ rfl (offset_eq hlengths 5) message.request.sequence.toNat_lt
  have haction : field (messageParts message).flatten 24 16 = message.action.get.toNat :=
    @field_part _ 6 _ _ _ rfl (offset_eq hlengths 6) message.action.get.isLt
  have hdomain : field (messageParts message).flatten 40 4 = message.domain.get.toNat :=
    @field_part _ 7 _ _ _ rfl (offset_eq hlengths 7) message.domain.get.toNat_lt
  have hread : field (messageParts message).flatten 44 8 = message.deadlineMs :=
    @field_part _ 8 _ _ _ rfl (offset_eq hlengths 8) hdeadline
  have hrequest : RequestId.new ⟨message.request.origin.get⟩ message.request.sequence.toNat =
      some message.request := message.request.new_get
  have hshape := (validateShape_iff message parcel).2.mpr hshaped
  rw [decode, hsegments, message_encode]
  dsimp only
  rw [if_neg (not_not.mpr hlength)]
  simp (disch := omega) only [bytesAt_ok, numberAt_ok, byte_ok, Option.bind_some, bind, hmagic,
    hversion, hcode, hreserved, horigin, hsequence, haction, hdomain, hread, tryFrom_code, hrequest,
    ActionId.new_get, UInt64.ofNat_toNat, UInt32.ofNat_toNat, hshape, ne_eq, not_true_eq_false,
    if_false]

/-- What is accepted is the encoding of the message, in a parcel of its shape. -/
theorem decode_inv (h : decode parcel = some (.ok message)) :
    message.encode = parcel.segments ∧ message.deadlineMs < u64Bound ∧ Shaped message parcel := by
  unfold decode at h
  split at h
  · cases h
  next header payload hsegments =>
  split at h
  · cases h
  next hlength =>
  have hsize : header.length = 52 := not_not.mp hlength
  simp (disch := omega) only [bytesAt_ok, numberAt_ok, byte_ok, Option.bind_some, bind] at h
  split at h
  · cases h
  next hmagic =>
  split at h
  · cases h
  next hversion =>
  split at h
  · cases h
  next kind hkind =>
  split at h
  · cases h
  next hreserved =>
  split at h
  · cases h
  next request hrequest =>
  split at h
  · cases h
  next action haction =>
  obtain ⟨result, hresult, hdone⟩ := Option.bind_eq_some_iff.mp h
  cases result with
  | error error => cases hdone
  | ok _ =>
    cases hdone
    have hdeadline : field header 44 8 < 256 ^ 8 := field_lt (by omega)
    obtain ⟨horigin, hsequence⟩ := RequestId.new_some hrequest (field_lt (by omega))
    have horigins : (UInt64.ofNat (field header 8 8)).toNat = field header 8 8 :=
      UInt64.toNat_ofNat_of_lt' (field_lt (by omega))
    have hactions := ActionId.new_some haction (field_lt (by omega))
    have hdomain : (UInt32.ofNat (field header 40 4)).toNat = field header 40 4 :=
      UInt32.toNat_ofNat_of_lt' (field_lt (by omega))
    have hone : slice header 4 1 = [1] := by
      rw [slice_one (by omega), not_not.mp hversion]
    have hcode : slice header 5 1 = [kind.code] := by
      rw [slice_one (by omega), code_tryFrom hkind]
    have hwhole := @flatten_whole header [4, 1, 1, 2, 8, 8, 16, 4, 8] hsize.symm
    refine ⟨?_, hdeadline, (validateShape_iff ⟨kind, request, action,
      ⟨UInt32.ofNat (field header 40 4)⟩, field header 44 8, payload⟩ parcel).2.mp hresult⟩
    rw [message_encode, hsegments]
    refine congrArg (fun whole => whole :: payload) (Eq.trans ?_ hwhole)
    simp only [cuts, Nat.zero_add, Nat.reduceAdd, not_not.mp hmagic, hone, hcode,
      not_not.mp hreserved]
    simp (disch := omega) only [messageParts, horigin, hsequence, horigins, hactions, hdomain,
      toLe_field]

/-! ## What the runtime sends -/

/-- The messages a locality sends, and to whom. A response goes to the origin of the request, which
    is where `decode` has let the request come from; a replay sends such a message again. -/
inductive Sent (me : LocalityId) : RuntimeMessage → LocalityId → Prop
  | request (request : RequestId) (hmine : request.origin = me) (action : ActionId)
    (domain : DomainId) (deadlineMs : Nat) (hpositive : 0 < deadlineMs)
    (hbound : deadlineMs < u64Bound) (payload : Segments) (destination : LocalityId) :
    Sent me ⟨.request, request, action, domain, deadlineMs, payload⟩ destination
  | cancel (request : RequestId) (hmine : request.origin = me) (action : ActionId)
    (domain : DomainId) (destination : LocalityId) :
    Sent me ⟨.cancel, request, action, domain, 0, []⟩ destination
  | completed (completion : Completion) (message : RuntimeMessage)
    (hmessage : completionResponse completion = .ok message) :
    Sent me message completion.request.origin
  | refused (request : RuntimeMessage) (error : String) :
    Sent me (respondTo request .failure [textBytes (cap error)]) request.request.origin
  | moved (request : RuntimeMessage) (object : ObjectId) (location : ObjectLocation) :
    Sent me (respondTo request .moved (movedPayload object location)) request.request.origin
  | unavailable (request : RequestId) (action : ActionId) (domain : DomainId) :
    Sent me ⟨.duplicateResultUnavailable, request, action, domain, 0, []⟩ request.origin
  | cancelled (request : RequestId) (action : ActionId) (domain : DomainId) :
    Sent me ⟨.cancelled, request, action, domain, 0, []⟩ request.origin

/-- The text of a failure is as short as `decode` asks. -/
def RuntimeMessage.Brief (message : RuntimeMessage) : Prop :=
  message.kind = .failure → (message.payload.map List.length).sum ≤ maxErrorBytes

variable {me destination : LocalityId} {runId : RunId} {messageId : MessageId}
  {traceId : Option TraceId}

/-- What is left of the shape in the parcel that `send` builds. -/
theorem shaped_parcel
    (hsource : message.kind = .request ∨ message.kind = .cancel → me = message.request.origin)
    (hdestination : ¬(message.kind = .request ∨ message.kind = .cancel) →
      destination = message.request.origin)
    (hdeadline : message.kind = .request ↔ message.deadlineMs ≠ 0) :
    Shaped message (message.parcel runId messageId me destination traceId) ↔
      PayloadShaped message.kind message.payload :=
  ⟨fun h => h.payload, fun h => ⟨rfl, rfl, hsource, hdestination, hdeadline, h⟩⟩

theorem textBytes_shaped (text : String) :
    PayloadShaped .failure [textBytes text] ↔ text.utf8ByteSize ≤ maxErrorBytes := by
  rw [textBytes, toByteArray_toList, failure_shaped, length_ofText, toText_ofText]
  exact and_iff_left rfl

/-- A `Failure` gets to `handle_message` exactly if its payload has its shape. -/
theorem textBytes_decodes (text : String) :
    PayloadShaped .failure [textBytes text] ↔ (Response.failure text).decodes = true :=
  (textBytes_shaped text).trans decide_eq_true_iff.symm

/-- A message that is sent has its shape, up to the length of an error text. -/
theorem Sent.shaped (h : Sent me message destination) :
    message.deadlineMs < u64Bound ∧
      (Shaped message (message.parcel runId messageId me destination traceId) ↔ message.Brief) := by
  have hzero : (0 : Nat) < u64Bound := by decide
  have htext : ∀ text : String, (textBytes text).length = text.utf8ByteSize := by
    intro text
    rw [textBytes, toByteArray_toList, length_ofText]
  cases h with
  | request request hmine action domain deadlineMs hpositive hbound payload =>
    refine ⟨hbound, (shaped_parcel (fun _ => hmine.symm) (by simp) ?_).trans ?_⟩
    · simpa using hpositive.ne'
    · simp [PayloadShaped, RuntimeMessage.Brief]
  | cancel request hmine action domain =>
    refine ⟨hzero, (shaped_parcel (fun _ => hmine.symm) (by simp) (by simp)).trans ?_⟩
    simp [PayloadShaped, RuntimeMessage.Brief]
  | completed completion _ hmessage =>
    unfold completionResponse at hmessage
    split at hmessage
    · cases hmessage
      refine ⟨hzero, (shaped_parcel (by simp) (fun _ => rfl) (by simp)).trans ?_⟩
      simp [PayloadShaped, RuntimeMessage.Brief]
    split at hmessage
    · cases hmessage
      refine ⟨hzero, (shaped_parcel (by simp) (fun _ => rfl) (by simp)).trans ?_⟩
      simp [PayloadShaped, RuntimeMessage.Brief]
    · cases hmessage
    next error _ =>
      cases hmessage
      refine ⟨hzero, (shaped_parcel (by simp) (fun _ => rfl) (by simp)).trans ?_⟩
      refine (textBytes_shaped error.message).trans ?_
      simp [RuntimeMessage.Brief, htext]
  | refused request error =>
    refine ⟨hzero, (shaped_parcel (by simp [respondTo]) (fun _ => rfl) (by simp [respondTo])).trans
      ?_⟩
    refine (textBytes_shaped (cap error)).trans ?_
    simp [RuntimeMessage.Brief, respondTo, htext]
  | moved request object location =>
    refine ⟨hzero, (shaped_parcel (by simp [respondTo]) (fun _ => rfl) (by simp [respondTo])).trans
      ?_⟩
    simp [PayloadShaped, RuntimeMessage.Brief, respondTo, movedPayload]
  | unavailable request action domain =>
    refine ⟨hzero, (shaped_parcel (by simp) (fun _ => rfl) (by simp)).trans ?_⟩
    simp [PayloadShaped, RuntimeMessage.Brief]
  | cancelled request action domain =>
    refine ⟨hzero, (shaped_parcel (by simp) (fun _ => rfl) (by simp)).trans ?_⟩
    simp [PayloadShaped, RuntimeMessage.Brief]

/-- A message that is sent is read as it was exactly if it is brief. -/
theorem Sent.decode_iff (h : Sent me message destination) :
    decode (message.parcel runId messageId me destination traceId) = some (.ok message) ↔
      message.Brief := by
  obtain ⟨hdeadline, hshaped⟩ := @Sent.shaped message me destination runId messageId traceId h
  rw [← hshaped]
  exact ⟨fun hdecode => (decode_inv hdecode).2.2, decode_encode rfl hdeadline⟩

/-! ## Messages and the formats they carry -/

/-- What is encoded comes back, and what is accepted is what its value encodes to. -/
def Exact {T B E : Type} (valid : T → Prop) (encode : T → B) (decode : B → Except E T) : Prop :=
  (∀ value, valid value → decode (encode value) = .ok value) ∧
    ∀ bytes value, decode bytes = .ok value → encode value = bytes

/-- The codecs of the object formats are exact, for values whose numbers have their ranges. -/
theorem formats_exact :
    Exact (fun call : ObjectEnvelope × Segments => 0 < call.1.epoch ∧ call.1.epoch < u64Bound)
      (fun call => call.1.encode call.2) envelopeDecode ∧
    Exact (fun _ => True) encodeLocation decodeLocation ∧
    Exact (fun _ => True) (fun target : ObjectId × ObjectLocation => movedPayload target.1 target.2)
      decodeMoved ∧
    (∀ typeId, Exact (fun weak : WeakRemote => weak.objectType.get.toNat = typeId)
      WeakRemote.encode (WeakRemote.decode typeId)) ∧
    Exact (fun packet : MigrationPacket =>
        packet.snapshotVersion < 2 ^ 32 ∧ packet.snapshotSchema < u64Bound)
      MigrationPacket.encode MigrationPacket.decode :=
  ⟨⟨fun call h => envelope_roundTrip call.1 call.2 h, fun _ _ h => envelope_canonical h⟩,
    ⟨fun location _ => location_roundTrip location, fun _ _ h => location_canonical h⟩,
    ⟨fun target _ => moved_roundTrip target.1 target.2, fun _ _ h => moved_canonical h⟩,
    fun _ => ⟨fun weak h => weak_roundTrip weak h, fun _ _ h => weak_canonical h⟩,
    ⟨fun packet h => packet_roundTrip packet h.1 h.2, fun _ _ h => packet_canonical h⟩⟩

/-- An action that failed with a text of 4097 bytes, put into the variant by the handler. -/
def longFailure : RuntimeMessage :=
  ⟨.failure, ⟨⟨0⟩, 1, u64_one⟩, ⟨1, u128_one⟩, ⟨0⟩, 0,
    [textBytes (ActionError.user (String.ofList (List.replicate 4097 'a'))).message]⟩

/-- The runtime sends the failure, and its parcel is refused. -/
theorem long_failure_refused :
    Sent ⟨1⟩ longFailure ⟨0⟩ ∧
      decode (longFailure.parcel ⟨1, by decide⟩ ⟨1, by decide⟩ ⟨1⟩ ⟨0⟩ none) ≠
        some (.ok longFailure) := by
  have hsent : Sent ⟨1⟩ longFailure ⟨0⟩ :=
    .completed ⟨⟨0⟩, ⟨⟨0⟩, 1, by decide⟩, ⟨1, by decide⟩, ⟨0⟩,
      .error (.user (String.ofList (List.replicate 4097 'a'))), false, false, none⟩ _ rfl
  refine ⟨hsent, fun hdecode => ?_⟩
  have hshape := (decode_inv hdecode).2.2.payload
  have hfits := (textBytes_shaped _).mp hshape
  rw [ActionError.message, utf8ByteSize_replicate] at hfits
  exact absurd hfits (by decide)

/-- A message that the runtime sends is read as it was exactly if the text of a failure is short
    enough; what is read of any parcel is a message in a parcel of its shape, encoded as `encode`
    does; and the formats inside are exact. -/
theorem runtime_codec (me : LocalityId) (parcel : Parcel) :
    (∀ (destination : LocalityId) (message : RuntimeMessage) (runId : RunId)
      (messageId : MessageId) (traceId : Option TraceId), Sent me message destination →
      (decode (message.parcel runId messageId me destination traceId) = some (.ok message) ↔
        message.Brief)) ∧
    (decode parcel ≠ none ∧ ∀ message, decode parcel = some (.ok message) →
      Shaped message parcel ∧ message.encode = parcel.segments) ∧
    Exact (fun call : ObjectEnvelope × Segments => 0 < call.1.epoch ∧ call.1.epoch < u64Bound)
      (fun call => call.1.encode call.2) envelopeDecode ∧
    Exact (fun _ => True) encodeLocation decodeLocation ∧
    Exact (fun _ => True) (fun target : ObjectId × ObjectLocation => movedPayload target.1 target.2)
      decodeMoved ∧
    (∀ typeId, Exact (fun weak : WeakRemote => weak.objectType.get.toNat = typeId)
      WeakRemote.encode (WeakRemote.decode typeId)) ∧
    Exact (fun packet : MigrationPacket =>
        packet.snapshotVersion < 2 ^ 32 ∧ packet.snapshotSchema < u64Bound)
      MigrationPacket.encode MigrationPacket.decode := by
  refine ⟨fun destination message runId messageId traceId h => h.decode_iff,
    ⟨decode_total parcel, fun message h => ?_⟩, formats_exact⟩
  obtain ⟨hencode, -, hshaped⟩ := decode_inv h
  exact ⟨hshaped, hencode⟩

/-- A request of locality 1 to locality 0. -/
def sampleCall : RuntimeMessage :=
  ⟨.request, ⟨⟨1⟩, 1, u64_one⟩, ⟨1, u128_one⟩, ⟨0⟩, 100, [[7], []]⟩

theorem runtime_codec_call :
    decode (sampleCall.parcel ⟨1, by decide⟩ ⟨1, by decide⟩ ⟨1⟩ ⟨0⟩ none) =
      some (.ok sampleCall) := by
  have hcodec := runtime_codec ⟨1⟩
    (sampleCall.parcel ⟨1, by decide⟩ ⟨1, by decide⟩ ⟨1⟩ ⟨0⟩ none)
  refine (hcodec.1 ⟨0⟩ sampleCall ⟨1, by decide⟩ ⟨1, by decide⟩ none ?_).mpr nofun
  exact .request ⟨⟨1⟩, 1, by decide⟩ rfl ⟨1, by decide⟩ ⟨0⟩ 100 (by decide) (by decide) [[7], []] ⟨0⟩

end Hataori.Runtime
