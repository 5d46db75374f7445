import Hataori.Transport.Protocol

/-!
# Parcels survive the wire

`decode_parcel` reads back what `encode_parcel` wrote, for every parcel that
passes `validate` under the reader's own limits, whatever the writer's were.
`decode_hello` reads back every hello that `encode_hello` agreed to write.
-/

namespace Hataori.Transport

open Hataori.Runtime Lib.Bytes

/-! ## Accepted parcels -/

theorem checked_ok {value found : Nat} (h : checked value = .ok found) :
    found = value ∧ value < u64Bound := by
  unfold checked at h
  split at h
  · rename_i hlt
    cases h
    exact ⟨rfl, hlt⟩
  · cases h

theorem checked_of_lt {value : Nat} (h : value < u64Bound) : checked value = .ok value := by
  rw [checked, if_pos h]

/-- What `Parcel::validate` checks. -/
structure Parcel.Fits (parcel : Parcel) (limits : ProtocolLimits) : Prop where
  valid : limits.validate = .ok limits
  segments : parcel.segments.length ≤ limits.maxSegments
  payload : parcel.payload ≤ limits.maxPayloadBytes
  frame : parcel.frame ≤ limits.maxFrameBytes
  bound : parcel.frame < u64Bound

theorem ProtocolLimits.validate_ok {limits found : ProtocolLimits}
    (h : limits.validate = .ok found) : found = limits := by
  unfold ProtocolLimits.validate at h
  split at h
  · cases h
  · cases h
    rfl

theorem Parcel.payload_le_frame (parcel : Parcel) :
    parcel.payload ≤ parcel.frame ∧ parcel.segments.length * 8 ≤ parcel.frame := by
  unfold Parcel.frame
  omega

theorem Parcel.encodedLen_eq {parcel : Parcel} (h : parcel.frame < u64Bound) :
    parcel.encodedLen = .ok parcel.frame := by
  have hle := parcel.payload_le_frame
  unfold Parcel.encodedLen Parcel.payloadLen
  rw [checked_of_lt (by omega), checked_of_lt (by omega), checked_of_lt h]
  rfl

theorem Parcel.encodedLen_ok {parcel : Parcel} {length : Nat} (h : parcel.encodedLen = .ok length) :
    length = parcel.frame ∧ parcel.frame < u64Bound := by
  unfold Parcel.encodedLen at h
  cases hpayload : parcel.payloadLen with
  | error error =>
    rw [hpayload] at h
    cases h
  | ok payload =>
    cases htable : checked (parcel.segments.length * 8) with
    | error error =>
      rw [hpayload, htable] at h
      cases h
    | ok table =>
      rw [hpayload, htable] at h
      exact checked_ok h

/-- `validate` accepts exactly the parcels that fit. -/
theorem Parcel.validate_iff {parcel : Parcel} {limits : ProtocolLimits} :
    parcel.validate limits = .ok () ↔ parcel.Fits limits := by
  constructor
  · intro h
    unfold Parcel.validate at h
    cases hlimits : limits.validate with
    | error error =>
      rw [hlimits] at h
      cases h
    | ok found =>
      rw [hlimits] at h
      have hsame := ProtocolLimits.validate_ok hlimits
      subst hsame
      by_cases hsegments : found.maxSegments < parcel.segments.length
      · simp only [bind, Except.bind, hsegments, if_true] at h
        cases h
      simp only [bind, Except.bind, hsegments, if_false] at h
      cases hpayload : parcel.payloadLen with
      | error error =>
        simp only [hpayload] at h
        cases h
      | ok payload =>
        obtain ⟨rfl, -⟩ := checked_ok hpayload
        simp only [pure, Except.pure, hpayload] at h
        by_cases hlarge : found.maxPayloadBytes < parcel.payload
        · simp only [hlarge, if_true] at h
          cases h
        simp only [hlarge, if_false] at h
        cases hencoded : parcel.encodedLen with
        | error error =>
          simp only [hencoded] at h
          cases h
        | ok frame =>
          obtain ⟨rfl, hbound⟩ := Parcel.encodedLen_ok hencoded
          simp only [hencoded] at h
          by_cases hframe : found.maxFrameBytes < parcel.frame
          · simp only [hframe, if_true] at h
            cases h
          exact ⟨hlimits, not_lt.mp hsegments, not_lt.mp hlarge, not_lt.mp hframe, hbound⟩
  · intro h
    have hle := parcel.payload_le_frame
    have hpayload : parcel.payloadLen = .ok parcel.payload :=
      checked_of_lt (lt_of_le_of_lt hle.1 h.bound)
    unfold Parcel.validate
    rw [h.valid, hpayload, Parcel.encodedLen_eq h.bound]
    simp only [bind, Except.bind, pure, Except.pure, if_neg (not_lt.mpr h.segments),
      if_neg (not_lt.mpr h.payload), if_neg (not_lt.mpr h.frame)]

theorem encodeParcel_ok {parcel : Parcel} {limits : ProtocolLimits} {bytes : List UInt8}
    (h : encodeParcel parcel limits = .ok bytes) :
    bytes = parcelBytes parcel ∧ parcel.Fits limits ∧ parcel.segments.length < 2 ^ 32 := by
  unfold encodeParcel at h
  cases hvalid : parcel.validate limits with
  | error error =>
    rw [hvalid] at h
    cases h
  | ok found =>
    have hfits := Parcel.validate_iff.mp hvalid
    rw [hvalid, Parcel.encodedLen_eq hfits.bound] at h
    unfold checkedU32 at h
    by_cases hcount : parcel.segments.length < 2 ^ 32
    · simp only [bind, Except.bind, hcount, if_true, pure, Except.pure, Except.ok.injEq] at h
      exact ⟨h.symm, hfits, hcount⟩
    · simp only [bind, Except.bind, hcount, if_false] at h
      cases h

theorem encodeParcel_of_fits {parcel : Parcel} {limits : ProtocolLimits} (h : parcel.Fits limits)
    (hcount : parcel.segments.length < 2 ^ 32) :
    encodeParcel parcel limits = .ok (parcelBytes parcel) := by
  unfold encodeParcel checkedU32
  rw [Parcel.validate_iff.mpr h, Parcel.encodedLen_eq h.bound, if_pos hcount]
  rfl

/-! ## Reading back -/

/-- The reader stands in front of `rest`. -/
structure Reader.Front (input : Reader) (rest : List UInt8) : Prop where
  bound : input.bytes.length < u64Bound
  within : input.offset ≤ input.bytes.length
  rest : input.bytes.drop input.offset = rest

theorem Reader.Front.take {input : Reader} {front rest : List UInt8} {length : Nat}
    (h : input.Front (front ++ rest)) (hlength : front.length = length) :
    ∃ next, input.take length = .ok (front, next) ∧ next.Front rest := by
  have hsize := congrArg List.length h.rest
  rw [List.length_drop, List.length_append] at hsize
  have hwithin := h.within
  have hbound := h.bound
  refine ⟨{ input with offset := input.offset + length }, ?_, h.bound, by dsimp only; omega, ?_⟩
  · rw [Reader.take, if_neg (by omega), if_neg (by omega), slice, h.rest, ← hlength,
      List.take_left]
  · dsimp only
    rw [← List.drop_drop, h.rest, ← hlength, List.drop_left]

theorem Reader.Front.number {input : Reader} {rest : List UInt8} {width value : Nat}
    (h : input.Front (toLe width value ++ rest)) (hvalue : value < 256 ^ width) :
    ∃ next, input.number width = .ok (value, next) ∧ next.Front rest := by
  obtain ⟨next, htake, hnext⟩ := h.take (length_toLe width value)
  refine ⟨next, ?_, hnext⟩
  rw [Reader.number, htake]
  simp only [bind, Except.bind, pure, Except.pure, ofLe_toLe hvalue]

theorem Reader.Front.finish {input : Reader} (h : input.Front []) : input.finish = .ok () := by
  have hsize := congrArg List.length h.rest
  rw [List.length_drop, List.length_nil] at hsize
  have hwithin := h.within
  rw [Reader.finish, if_pos (by omega)]

theorem Reader.Front.lengths {limits : ProtocolLimits} {segments : Segments} {rest : List UInt8}
    {input : Reader} (total : Nat)
    (h : input.Front ((segments.flatMap fun segment => toLe 8 segment.length) ++ rest))
    (hbound : total + (segments.map List.length).sum < u64Bound)
    (hpayload : total + (segments.map List.length).sum ≤ limits.maxPayloadBytes) :
    ∃ next, Reader.lengths limits segments.length total input =
        .ok (segments.map List.length, total + (segments.map List.length).sum, next) ∧
      next.Front rest := by
  induction segments generalizing total input with
  | nil => exact ⟨input, rfl, h⟩
  | cons segment more ih =>
    rw [List.map_cons, List.sum_cons] at hbound hpayload
    rw [List.flatMap_cons, List.append_assoc] at h
    obtain ⟨next, hnumber, hnext⟩ := h.number
      (show segment.length < 256 ^ 8 by unfold u64Bound at hbound; omega)
    obtain ⟨last, hlast, hrest⟩ := ih (total + segment.length) hnext (by omega) (by omega)
    refine ⟨last, ?_, hrest⟩
    rw [List.length_cons, Reader.lengths, hnumber]
    simp only [bind, Except.bind, checked_of_lt (show total + segment.length < u64Bound by omega),
      if_neg (show ¬limits.maxPayloadBytes < total + segment.length by omega), pure, Except.pure,
      hlast, List.map_cons, List.sum_cons, Nat.add_assoc]

theorem Reader.Front.segments {segments : Segments} {rest : List UInt8} {input : Reader}
    (h : input.Front (segments.flatten ++ rest)) :
    ∃ next, Reader.segments (segments.map List.length) input = .ok (segments, next) ∧
      next.Front rest := by
  induction segments generalizing input with
  | nil => exact ⟨input, rfl, h⟩
  | cons segment more ih =>
    rw [List.flatten_cons, List.append_assoc] at h
    obtain ⟨next, htake, hnext⟩ := h.take rfl
    obtain ⟨last, hlast, hrest⟩ := ih hnext
    refine ⟨last, ?_, hrest⟩
    rw [List.map_cons, Reader.segments, htake]
    simp only [bind, Except.bind, hlast, pure, Except.pure]

theorem RunId.new_get (id : RunId) : RunId.new id.get.toNat = some id := by
  unfold RunId.new
  rw [dif_pos (by rw [BitVec.ofNat_toNat, BitVec.setWidth_eq]; exact id.nonzero)]
  simp

theorem MessageId.new_get (id : MessageId) : MessageId.new id.get.toNat = some id := by
  unfold MessageId.new
  rw [dif_pos (by rw [BitVec.ofNat_toNat, BitVec.setWidth_eq]; exact id.nonzero)]
  simp

theorem TraceId.new_get (id : TraceId) : TraceId.new id.get.toNat = some id := by
  unfold TraceId.new
  rw [dif_pos (by rw [BitVec.ofNat_toNat, BitVec.setWidth_eq]; exact id.nonzero)]
  simp

theorem Channel.tryFrom_code (channel : Channel) : Channel.tryFrom channel.code = .ok channel := by
  cases channel <;> rfl

theorem ParcelKind.tryFrom_code (kind : ParcelKind) : ParcelKind.tryFrom kind.code = .ok kind := by
  cases kind <;> rfl

/-- The trace fields as two numbers. -/
def traceNumbers : Option TraceId → Nat × Nat
  | some traceId => (1, traceId.get.toNat)
  | none => (0, 0)

theorem traceBytes_eq (traceId : Option TraceId) :
    traceBytes traceId = toLe 1 (traceNumbers traceId).1 ++ toLe 16 (traceNumbers traceId).2 := by
  cases traceId <;> rfl

theorem decodeTrace_numbers (traceId : Option TraceId) :
    decodeTrace (traceNumbers traceId).1 (traceNumbers traceId).2 = .ok traceId := by
  cases traceId with
  | none => rfl
  | some traceId =>
    simp only [traceNumbers, decodeTrace, TraceId.new_get, idOr]
    rfl

theorem length_traceBytes (traceId : Option TraceId) : (traceBytes traceId).length = 17 := by
  cases traceId <;> simp [traceBytes]

theorem length_parcelBytes (parcel : Parcel) : (parcelBytes parcel).length = parcel.frame := by
  have htable : (parcel.segments.flatMap fun segment => toLe 8 segment.length).length =
      parcel.segments.length * 8 := by
    rw [List.length_flatMap]
    simp
  simp only [parcelBytes, List.length_append, length_toLe, length_traceBytes, htable,
    List.length_flatten, parcelMagic, List.length_cons, List.length_nil]
  unfold Parcel.frame Parcel.payload parcelFixedBytes
  omega

theorem Parcel.lt_widths {parcel : Parcel} :
    parcel.runId.get.toNat < 256 ^ 16 ∧ parcel.messageId.get.toNat < 256 ^ 16 ∧
      parcel.channel.code < 256 ^ 1 ∧ parcel.kind.code < 256 ^ 1 ∧
      parcel.source.get.toNat < 256 ^ 8 ∧ parcel.destination.get.toNat < 256 ^ 8 ∧
      (traceNumbers parcel.traceId).1 < 256 ^ 1 ∧ (traceNumbers parcel.traceId).2 < 256 ^ 16 := by
  refine ⟨parcel.runId.get.isLt, parcel.messageId.get.isLt, ?_, ?_, parcel.source.get.toNat_lt,
    parcel.destination.get.toNat_lt, ?_, ?_⟩
  · cases parcel.channel <;> decide
  · cases parcel.kind <;> decide
  · cases parcel.traceId with
    | none => decide
    | some traceId => exact (by decide : 1 < 256 ^ 1)
  · cases parcel.traceId with
    | none => decide
    | some traceId => exact traceId.get.isLt

/-- What `decode_parcel` makes of an encoded parcel, whoever encoded it. -/
theorem decodeParcel_parcelBytes {parcel : Parcel} {limits : ProtocolLimits}
    (hvalid : limits.validate = .ok limits) (hframe : parcel.frame ≤ limits.maxFrameBytes)
    (hbound : parcel.frame < u64Bound) (hcount : parcel.segments.length < 2 ^ 32) :
    decodeParcel (parcelBytes parcel) limits =
      if limits.maxSegments < parcel.segments.length then
        .error (.tooManySegments parcel.segments.length limits.maxSegments)
      else if limits.maxPayloadBytes < parcel.payload then
        .error (.payloadTooLarge parcel.payload limits.maxPayloadBytes)
      else .ok parcel := by
  have hle := parcel.payload_le_frame
  obtain ⟨hrun, hmessage, hchannel, hkind, hsource, hdestination, hflag, htrace⟩ :=
    parcel.lt_widths
  obtain ⟨bytes, hbytes⟩ : ∃ bytes, bytes = parcelBytes parcel := ⟨_, rfl⟩
  have hlength : bytes.length = parcel.frame := by rw [hbytes, length_parcelBytes]
  have hfields : Reader.Front ⟨bytes, 0⟩ (parcelBytes parcel) :=
    ⟨by rw [hlength]; exact hbound, Nat.zero_le _, hbytes⟩
  rw [← hbytes]
  simp only [parcelBytes, traceBytes_eq, List.append_assoc] at hfields
  -- The fields, in the order they were written.
  obtain ⟨r₁, h₁, hfields⟩ := hfields.take (show parcelMagic.length = 4 from rfl)
  obtain ⟨r₂, h₂, hfields⟩ := hfields.number (by decide)
  obtain ⟨r₃, h₃, hfields⟩ := hfields.number hrun
  obtain ⟨r₄, h₄, hfields⟩ := hfields.number hmessage
  obtain ⟨r₅, h₅, hfields⟩ := hfields.number hchannel
  obtain ⟨r₆, h₆, hfields⟩ := hfields.number hkind
  obtain ⟨r₇, h₇, hfields⟩ := hfields.number hsource
  obtain ⟨r₈, h₈, hfields⟩ := hfields.number hdestination
  obtain ⟨r₉, h₉, hfields⟩ := hfields.number hflag
  obtain ⟨r₁₀, h₁₀, hfields⟩ := hfields.number htrace
  obtain ⟨r₁₁, h₁₁, hfields⟩ := hfields.number
    (show parcel.payload < 256 ^ 8 by unfold u64Bound at hbound; omega)
  obtain ⟨r₁₂, h₁₂, hfields⟩ := hfields.number
    (show parcel.segments.length < 256 ^ 4 by omega)
  simp only [decodeParcel, bind, Except.bind, hvalid, hlength, if_neg (not_lt.mpr hframe), pure,
    Except.pure, h₁, h₂, h₃, h₄, h₅, h₆, h₇, h₈, h₉, h₁₀, h₁₁, h₁₂, ne_eq, not_true, if_false,
    RunId.new_get, MessageId.new_get, Channel.tryFrom_code, ParcelKind.tryFrom_code,
    decodeTrace_numbers, idOr]
  by_cases hsegments : limits.maxSegments < parcel.segments.length
  · rw [if_pos hsegments, if_pos hsegments]
  rw [if_neg hsegments, if_neg hsegments]
  by_cases hpayload : limits.maxPayloadBytes < parcel.payload
  · simp only [if_pos hpayload]
  obtain ⟨r₁₃, h₁₃, hfields⟩ := Reader.Front.lengths 0 hfields
    (show 0 + parcel.payload < u64Bound by omega)
    (show 0 + parcel.payload ≤ limits.maxPayloadBytes by omega)
  rw [← List.append_nil parcel.segments.flatten] at hfields
  obtain ⟨r₁₄, h₁₄, hfields⟩ := hfields.segments
  have hfits : parcel.Fits limits :=
    ⟨hvalid, not_lt.mp hsegments, not_lt.mp hpayload, hframe, hbound⟩
  have hsource : LocalityId.mk (UInt64.ofNat parcel.source.get.toNat) = parcel.source := by
    rw [UInt64.ofNat_toNat]
  have hdestination :
      LocalityId.mk (UInt64.ofNat parcel.destination.get.toNat) = parcel.destination := by
    rw [UInt64.ofNat_toNat]
  have htotal : 0 + (parcel.segments.map List.length).sum = parcel.payload := Nat.zero_add _
  simp only [if_neg hpayload, h₁₃, h₁₄, htotal, hfields.finish, hsource, hdestination,
    Parcel.validate_iff.mpr hfits, not_true, if_false]

/-- An encoded parcel comes back exactly where it fits the reader's limits. -/
theorem decodeParcel_iff {parcel found : Parcel} {limits : ProtocolLimits}
    (hbound : parcel.frame < u64Bound) (hcount : parcel.segments.length < 2 ^ 32) :
    decodeParcel (parcelBytes parcel) limits = .ok found ↔
      found = parcel ∧ parcel.Fits limits := by
  constructor
  · intro h
    have hvalid : limits.validate = .ok limits := by
      cases hlimits : limits.validate with
      | error error =>
        rw [decodeParcel, hlimits] at h
        cases h
      | ok found => rw [ProtocolLimits.validate_ok hlimits]
    have hframe : parcel.frame ≤ limits.maxFrameBytes := by
      apply not_lt.mp
      intro hlt
      rw [decodeParcel, hvalid, length_parcelBytes] at h
      simp only [bind, Except.bind, if_pos hlt] at h
      cases h
    rw [decodeParcel_parcelBytes hvalid hframe hbound hcount] at h
    by_cases hsegments : limits.maxSegments < parcel.segments.length
    · rw [if_pos hsegments] at h
      cases h
    by_cases hpayload : limits.maxPayloadBytes < parcel.payload
    · rw [if_neg hsegments, if_pos hpayload] at h
      cases h
    rw [if_neg hsegments, if_neg hpayload] at h
    cases h
    exact ⟨rfl, hvalid, not_lt.mp hsegments, not_lt.mp hpayload, hframe, hbound⟩
  · rintro ⟨rfl, hfits⟩
    rw [decodeParcel_parcelBytes hfits.valid hfits.frame hbound hcount,
      if_neg (not_lt.mpr hfits.segments), if_neg (not_lt.mpr hfits.payload)]

/-! ## Hellos -/

/-- What `encode_hello` checks of the limits it sends. -/
structure ProtocolLimits.Sendable (limits : ProtocolLimits) : Prop where
  valid : limits.validate = .ok limits
  frame : limits.maxFrameBytes < u64Bound
  payload : limits.maxPayloadBytes < u64Bound
  segments : limits.maxSegments < 2 ^ 32
  queued : limits.maxQueuedParcelsPerPeer < 2 ^ 32
  inflight : limits.maxInflightBytesPerPeer < u64Bound
  control : limits.controlReservedBytesPerPeer < u64Bound

theorem checkedU32_ok {value found : Nat} (h : checkedU32 value = .ok found) :
    found = value ∧ value < 2 ^ 32 := by
  unfold checkedU32 at h
  split at h
  · rename_i hlt
    cases h
    exact ⟨rfl, hlt⟩
  · cases h

theorem bind_ok {ε α β : Type} {found : Except ε α} {next : α → Except ε β} {result : β}
    (h : (found >>= next) = .ok result) : ∃ value, found = .ok value ∧ next value = .ok result := by
  cases found with
  | error error => cases h
  | ok value => exact ⟨value, rfl, h⟩

theorem encodeHello_ok {hello : Hello} {bytes : List UInt8} (h : encodeHello hello = .ok bytes) :
    bytes = helloBytes hello ∧ hello.limits.Sendable := by
  unfold encodeHello at h
  obtain ⟨limits, hlimits, h⟩ := bind_ok h
  have hvalid := ProtocolLimits.validate_ok hlimits
  obtain ⟨_, hframe, h⟩ := bind_ok h
  obtain ⟨_, hpayload, h⟩ := bind_ok h
  obtain ⟨_, hsegments, h⟩ := bind_ok h
  obtain ⟨_, hqueued, h⟩ := bind_ok h
  obtain ⟨_, hinflight, h⟩ := bind_ok h
  obtain ⟨_, hcontrol, h⟩ := bind_ok h
  cases h
  rw [hvalid] at hlimits
  exact ⟨rfl, hlimits, (checked_ok hframe).2, (checked_ok hpayload).2, (checkedU32_ok hsegments).2,
    (checkedU32_ok hqueued).2, (checked_ok hinflight).2, (checked_ok hcontrol).2⟩

theorem Reader.Front.array32 {input : Reader} {hash : Vector UInt8 32} {rest : List UInt8}
    (h : input.Front (hash.toList ++ rest)) :
    ∃ next, input.array32 = .ok (hash, next) ∧ next.Front rest := by
  have hlength : hash.toList.length = 32 := by simp
  obtain ⟨next, htake, hnext⟩ := h.take hlength
  refine ⟨next, ?_, hnext⟩
  rw [Reader.array32, htake]
  simp only [bind, Except.bind, dif_pos hlength, pure, Except.pure]
  congr 2

theorem length_helloBytes (hello : Hello) : (helloBytes hello).length = helloByteCount := by
  simp [helloBytes, helloMagic, helloByteCount]

/-- A hello that could be sent is read back as it was. -/
theorem decodeHello_helloBytes {hello : Hello} (h : hello.limits.Sendable) :
    decodeHello (helloBytes hello) = .ok hello := by
  obtain ⟨bytes, hbytes⟩ : ∃ bytes, bytes = helloBytes hello := ⟨_, rfl⟩
  have hlength : bytes.length = helloByteCount := by rw [hbytes, length_helloBytes]
  have hfields : Reader.Front ⟨bytes, 0⟩ (helloBytes hello) :=
    ⟨by rw [hlength]; decide, Nat.zero_le _, hbytes⟩
  rw [← hbytes]
  rw [helloBytes, ← List.append_nil (toLe 8 hello.limits.controlReservedBytesPerPeer)] at hfields
  simp only [List.append_assoc] at hfields
  obtain ⟨r₁, h₁, hfields⟩ := hfields.take (show helloMagic.length = 4 from rfl)
  obtain ⟨r₂, h₂, hfields⟩ := hfields.number (by decide)
  obtain ⟨r₃, h₃, hfields⟩ := hfields.number
    (show hello.runId.get.toNat < 256 ^ 16 from hello.runId.get.isLt)
  obtain ⟨r₄, h₄, hfields⟩ := hfields.number
    (show hello.runtimeVersion.major.toNat < 256 ^ 2 from hello.runtimeVersion.major.toNat_lt)
  obtain ⟨r₅, h₅, hfields⟩ := hfields.number
    (show hello.runtimeVersion.minor.toNat < 256 ^ 2 from hello.runtimeVersion.minor.toNat_lt)
  obtain ⟨r₆, h₆, hfields⟩ := hfields.number
    (show hello.runtimeVersion.patch.toNat < 256 ^ 2 from hello.runtimeVersion.patch.toNat_lt)
  obtain ⟨r₇, h₇, hfields⟩ := hfields.array32
  obtain ⟨r₈, h₈, hfields⟩ := hfields.array32
  obtain ⟨r₉, h₉, hfields⟩ := hfields.number
    (show hello.capabilities.toNat < 256 ^ 8 from hello.capabilities.toNat_lt)
  obtain ⟨r₁₀, h₁₀, hfields⟩ := hfields.number (show _ < 256 ^ 8 from h.frame)
  obtain ⟨r₁₁, h₁₁, hfields⟩ := hfields.number (show _ < 256 ^ 8 from h.payload)
  obtain ⟨r₁₂, h₁₂, hfields⟩ := hfields.number (show _ < 256 ^ 4 from h.segments)
  obtain ⟨r₁₃, h₁₃, hfields⟩ := hfields.number (show _ < 256 ^ 4 from h.queued)
  obtain ⟨r₁₄, h₁₄, hfields⟩ := hfields.number (show _ < 256 ^ 8 from h.inflight)
  obtain ⟨r₁₅, h₁₅, hfields⟩ := hfields.number (show _ < 256 ^ 8 from h.control)
  simp only [decodeHello, bind, Except.bind, hlength, ne_eq, not_true, if_false, pure, Except.pure,
    h₁, h₂, h₃, h₄, h₅, h₆, h₇, h₈, h₉, h₁₀, h₁₁, h₁₂, h₁₃, h₁₄, h₁₅, RunId.new_get, idOr, h.valid,
    hfields.finish, UInt16.ofNat_toNat, UInt64.ofNat_toNat]

end Hataori.Transport
