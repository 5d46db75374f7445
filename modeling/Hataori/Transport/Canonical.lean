import Hataori.Transport.Codec

/-!
# One encoding for each parcel

What `decode_parcel` and `decode_hello` accept is what `encode_parcel` and `encode_hello`
write, byte for byte. The proofs follow the reader: `Consumed` says which bytes it has taken,
and every step that succeeds adds the bytes that the field read there would be written as.
The checks in front of every index of the reader make the index good.
-/

namespace Hataori.Transport

open Hataori.Runtime Lib.Bytes

/-- A check of a program that ends well let it pass. -/
theorem guard_ok {ε α : Type} {c : Prop} [Decidable c] {error : ε} {next : Unit → Except ε α}
    {result : α} (h : (if c then (Except.error error >>= next) else next ()) = .ok result) :
    ¬c ∧ next () = .ok result := by
  by_cases hc : c
  · rw [if_pos hc] at h
    cases h
  · rw [if_neg hc] at h
    exact ⟨hc, h⟩

/-! ## What the reader takes -/

/-- The reader has taken these bytes, and nothing else. -/
structure Reader.Consumed (bytes front : List UInt8) (input : Reader) : Prop where
  source : input.bytes = bytes
  offset : input.offset = front.length
  front : front <+: bytes

namespace Reader

variable {bytes front : List UInt8} {input next : Reader}

theorem Consumed.new (bytes : List UInt8) : Consumed bytes [] ⟨bytes, 0⟩ :=
  ⟨rfl, rfl, List.nil_prefix⟩

theorem Consumed.take {length : Nat} {taken : List UInt8} (h : Consumed bytes front input)
    (htake : input.take length = .ok (taken, next)) :
    taken.length = length ∧ Consumed bytes (front ++ taken) next := by
  unfold Reader.take at htake
  split at htake
  · cases htake
  split at htake
  · cases htake
  rename_i hwithin
  obtain ⟨rest, hrest⟩ := h.front
  have hlength : front.length + length ≤ bytes.length := by
    rw [h.source, h.offset] at hwithin
    omega
  cases htake
  rw [h.source, h.offset]
  refine ⟨length_slice hlength, rfl, ?_, ?_⟩
  · rw [List.length_append, length_slice hlength]
  · refine ⟨rest.drop length, ?_⟩
    rw [← hrest, slice, List.drop_left, List.append_assoc, List.take_append_drop]

theorem Consumed.number {width value : Nat} (h : Consumed bytes front input)
    (hnumber : input.number width = .ok (value, next)) :
    value < 256 ^ width ∧ Consumed bytes (front ++ toLe width value) next := by
  obtain ⟨⟨taken, after⟩, htake, hvalue⟩ := bind_ok hnumber
  obtain ⟨hlength, hafter⟩ := h.take htake
  cases hvalue
  subst hlength
  rw [toLe_ofLe]
  exact ⟨ofLe_lt taken, hafter⟩

theorem Consumed.array32 {hash : Vector UInt8 32} (h : Consumed bytes front input)
    (harray : input.array32 = .ok (hash, next)) : Consumed bytes (front ++ hash.toList) next := by
  obtain ⟨⟨taken, after⟩, htake, hhash⟩ := bind_ok harray
  obtain ⟨hlength, hafter⟩ := h.take htake
  dsimp only at hhash
  rw [dif_pos hlength] at hhash
  cases hhash
  exact hafter

theorem Consumed.finish (h : Consumed bytes front input) (hfinish : input.finish = .ok ()) :
    bytes = front := by
  unfold Reader.finish at hfinish
  split at hfinish
  · next hend =>
    rw [h.source, h.offset] at hend
    exact (h.front.eq_of_length hend).symm
  · cases hfinish

/-- The table of the lengths, entry by entry. -/
theorem Consumed.lengths {limits : ProtocolLimits} {count total sum : Nat} {found : List Nat}
    (h : Consumed bytes front input)
    (hlengths : Reader.lengths limits count total input = .ok (found, sum, next)) :
    found.length = count ∧ sum = total + found.sum ∧
      Consumed bytes (front ++ found.flatMap (toLe 8)) next := by
  induction count generalizing total front input found with
  | zero =>
    cases hlengths
    simpa using h
  | succ count ih =>
    unfold Reader.lengths at hlengths
    obtain ⟨⟨length, after⟩, hnumber, hrest⟩ := bind_ok hlengths
    obtain ⟨grown, hgrown, hrest⟩ := bind_ok hrest
    obtain ⟨-, hrest⟩ := guard_ok hrest
    obtain ⟨⟨more, last, final⟩, hmore, hrest⟩ := bind_ok hrest
    cases hrest
    obtain ⟨rfl, -⟩ := checked_ok hgrown
    obtain ⟨hcount, hsum, hfinal⟩ := ih (h.number hnumber).2 hmore
    refine ⟨by simp [hcount], ?_, ?_⟩
    · rw [hsum, List.sum_cons]
      omega
    · rwa [List.flatMap_cons, ← List.append_assoc]

theorem Consumed.segments {lengths : List Nat} {found : Segments} (h : Consumed bytes front input)
    (hsegments : Reader.segments lengths input = .ok (found, next)) :
    found.map List.length = lengths ∧ Consumed bytes (front ++ found.flatten) next := by
  induction lengths generalizing front input found with
  | nil =>
    cases hsegments
    simpa using h
  | cons length rest ih =>
    unfold Reader.segments at hsegments
    obtain ⟨⟨segment, after⟩, htake, hrest⟩ := bind_ok hsegments
    obtain ⟨⟨more, final⟩, hmore, hrest⟩ := bind_ok hrest
    cases hrest
    obtain ⟨hlength, hafter⟩ := h.take htake
    obtain ⟨hlengths, hfinal⟩ := ih hafter hmore
    refine ⟨by rw [List.map_cons, hlength, hlengths], ?_⟩
    rwa [List.flatten_cons, ← List.append_assoc]

end Reader

/-! ## What the conversions accept -/

theorem idOr_ok {α : Type} {name : String} {found : Option α} {id : α}
    (h : idOr name found = .ok id) : found = some id := by
  cases found with
  | none => cases h
  | some other => exact congrArg some (Except.ok.inj h)

theorem toNat_ofNat_of_lt {value : Nat} (h : value < 256 ^ 16) :
    (BitVec.ofNat 128 value).toNat = value :=
  Nat.mod_eq_of_lt h

theorem RunId.get_of_new {value : Nat} {id : RunId} (h : RunId.new value = some id)
    (hvalue : value < 256 ^ 16) : id.get.toNat = value := by
  unfold RunId.new at h
  split at h
  · cases h
    exact toNat_ofNat_of_lt hvalue
  · cases h

theorem MessageId.get_of_new {value : Nat} {id : MessageId} (h : MessageId.new value = some id)
    (hvalue : value < 256 ^ 16) : id.get.toNat = value := by
  unfold MessageId.new at h
  split at h
  · cases h
    exact toNat_ofNat_of_lt hvalue
  · cases h

theorem TraceId.get_of_new {value : Nat} {id : TraceId} (h : TraceId.new value = some id)
    (hvalue : value < 256 ^ 16) : id.get.toNat = value := by
  unfold TraceId.new at h
  split at h
  · cases h
    exact toNat_ofNat_of_lt hvalue
  · cases h

theorem Channel.code_of_tryFrom {value : Nat} {channel : Channel}
    (h : Channel.tryFrom value = .ok channel) : channel.code = value := by
  unfold Channel.tryFrom at h
  split at h
  · cases h; simp_all [Channel.code]
  split at h
  · cases h; simp_all [Channel.code]
  split at h
  · cases h; simp_all [Channel.code]
  · cases h

theorem ParcelKind.code_of_tryFrom {value : Nat} {kind : ParcelKind}
    (h : ParcelKind.tryFrom value = .ok kind) : kind.code = value := by
  unfold ParcelKind.tryFrom at h
  split at h
  · cases h; simp_all [ParcelKind.code]
  split at h
  · cases h; simp_all [ParcelKind.code]
  split at h
  · cases h; simp_all [ParcelKind.code]
  · cases h

/-- A trace that is read is written as it was: a trace id is never zero, so the flag and the
    id say the same. -/
theorem decodeTrace_ok {flag value : Nat} {traceId : Option TraceId} (hvalue : value < 256 ^ 16)
    (h : decodeTrace flag value = .ok traceId) : traceNumbers traceId = (flag, value) := by
  unfold decodeTrace at h
  split at h
  · next hnone =>
    cases h
    rw [hnone.1, hnone.2]
    rfl
  split at h
  · next hsome =>
    obtain ⟨found, hfound, hrest⟩ := bind_ok h
    cases hrest
    rw [traceNumbers, TraceId.get_of_new (idOr_ok hfound) hvalue, hsome]
  · cases h

/-! ## Parcels -/

/-- What is accepted as a parcel is the encoding of the parcel. -/
theorem decodeParcel_ok {bytes : List UInt8} {limits : ProtocolLimits} {parcel : Parcel}
    (h : decodeParcel bytes limits = .ok parcel) :
    bytes = parcelBytes parcel ∧ parcel.Fits limits ∧ parcel.segments.length < 2 ^ 32 := by
  unfold decodeParcel at h
  -- The fields, in the order they are read.
  obtain ⟨_, hvalid, h⟩ := bind_ok h
  obtain ⟨hframe, h⟩ := guard_ok h
  obtain ⟨⟨magic, r₁⟩, h₁, h⟩ := bind_ok h
  obtain ⟨hmagic, h⟩ := guard_ok h
  obtain ⟨⟨version, r₂⟩, h₂, h⟩ := bind_ok h
  obtain ⟨hversion, h⟩ := guard_ok h
  obtain ⟨⟨run, r₃⟩, h₃, h⟩ := bind_ok h
  obtain ⟨runId, hrun, h⟩ := bind_ok h
  obtain ⟨⟨message, r₄⟩, h₄, h⟩ := bind_ok h
  obtain ⟨messageId, hmessage, h⟩ := bind_ok h
  obtain ⟨⟨channelCode, r₅⟩, h₅, h⟩ := bind_ok h
  obtain ⟨channel, hchannel, h⟩ := bind_ok h
  obtain ⟨⟨kindCode, r₆⟩, h₆, h⟩ := bind_ok h
  obtain ⟨kind, hkind, h⟩ := bind_ok h
  obtain ⟨⟨source, r₇⟩, h₇, h⟩ := bind_ok h
  obtain ⟨⟨destination, r₈⟩, h₈, h⟩ := bind_ok h
  obtain ⟨⟨flag, r₉⟩, h₉, h⟩ := bind_ok h
  obtain ⟨⟨trace, r₁₀⟩, h₁₀, h⟩ := bind_ok h
  obtain ⟨traceId, htrace, h⟩ := bind_ok h
  obtain ⟨⟨declared, r₁₁⟩, h₁₁, h⟩ := bind_ok h
  obtain ⟨⟨count, r₁₂⟩, h₁₂, h⟩ := bind_ok h
  obtain ⟨hcount, h⟩ := guard_ok h
  obtain ⟨hdeclared, h⟩ := guard_ok h
  obtain ⟨⟨lengths, total, r₁₃⟩, h₁₃, h⟩ := bind_ok h
  obtain ⟨htotal, h⟩ := guard_ok h
  obtain ⟨⟨segments, r₁₄⟩, h₁₄, h⟩ := bind_ok h
  obtain ⟨_, hfinish, h⟩ := bind_ok h
  obtain ⟨_, hfits, h⟩ := bind_ok h
  cases h
  -- What each of them took.
  obtain ⟨-, c₁⟩ := (Reader.Consumed.new bytes).take h₁
  obtain ⟨-, c₂⟩ := c₁.number h₂
  obtain ⟨b₃, c₃⟩ := c₂.number h₃
  obtain ⟨b₄, c₄⟩ := c₃.number h₄
  obtain ⟨-, c₅⟩ := c₄.number h₅
  obtain ⟨-, c₆⟩ := c₅.number h₆
  obtain ⟨b₇, c₇⟩ := c₆.number h₇
  obtain ⟨b₈, c₈⟩ := c₇.number h₈
  obtain ⟨-, c₉⟩ := c₈.number h₉
  obtain ⟨b₁₀, c₁₀⟩ := c₉.number h₁₀
  obtain ⟨-, c₁₁⟩ := c₁₀.number h₁₁
  obtain ⟨b₁₂, c₁₂⟩ := c₁₁.number h₁₂
  obtain ⟨hlength, hsum, c₁₃⟩ := c₁₂.lengths h₁₃
  obtain ⟨hsegments, c₁₄⟩ := c₁₃.segments h₁₄
  have hbytes := c₁₄.finish hfinish
  have hnumbers := decodeTrace_ok b₁₀ htrace
  have hpayload : (segments.map List.length).sum = declared := by
    rw [hsegments, ← not_not.mp htotal, hsum, Nat.zero_add]
  have hsize : segments.length = count := by
    rw [← hlength, ← hsegments, List.length_map]
  refine ⟨?_, Parcel.validate_iff.mp hfits, by dsimp only; omega⟩
  rw [hbytes]
  simp only [parcelBytes, traceBytes_eq, hnumbers, Parcel.payload, hpayload, hsize,
    RunId.get_of_new (idOr_ok hrun) b₃, MessageId.get_of_new (idOr_ok hmessage) b₄,
    Channel.code_of_tryFrom hchannel, ParcelKind.code_of_tryFrom hkind, ← hsegments,
    List.flatMap_map, UInt64.toNat_ofNat_of_lt' b₇, UInt64.toNat_ofNat_of_lt' b₈,
    ← not_not.mp hmagic, ← not_not.mp hversion, List.nil_append, List.append_assoc]

/-! ## Hellos -/

/-- What is accepted as a hello is the encoding of the hello. -/
theorem decodeHello_ok {bytes : List UInt8} {hello : Hello} (h : decodeHello bytes = .ok hello) :
    bytes = helloBytes hello ∧ hello.limits.Sendable := by
  unfold decodeHello at h
  obtain ⟨hsize, h⟩ := guard_ok h
  obtain ⟨⟨magic, r₁⟩, h₁, h⟩ := bind_ok h
  obtain ⟨hmagic, h⟩ := guard_ok h
  obtain ⟨⟨version, r₂⟩, h₂, h⟩ := bind_ok h
  obtain ⟨hversion, h⟩ := guard_ok h
  obtain ⟨⟨run, r₃⟩, h₃, h⟩ := bind_ok h
  obtain ⟨runId, hrun, h⟩ := bind_ok h
  obtain ⟨⟨major, r₄⟩, h₄, h⟩ := bind_ok h
  obtain ⟨⟨minor, r₅⟩, h₅, h⟩ := bind_ok h
  obtain ⟨⟨patch, r₆⟩, h₆, h⟩ := bind_ok h
  obtain ⟨⟨actions, r₇⟩, h₇, h⟩ := bind_ok h
  obtain ⟨⟨objects, r₈⟩, h₈, h⟩ := bind_ok h
  obtain ⟨⟨capabilities, r₉⟩, h₉, h⟩ := bind_ok h
  obtain ⟨⟨frame, r₁₀⟩, h₁₀, h⟩ := bind_ok h
  obtain ⟨⟨payload, r₁₁⟩, h₁₁, h⟩ := bind_ok h
  obtain ⟨⟨segments, r₁₂⟩, h₁₂, h⟩ := bind_ok h
  obtain ⟨⟨queued, r₁₃⟩, h₁₃, h⟩ := bind_ok h
  obtain ⟨⟨inflight, r₁₄⟩, h₁₄, h⟩ := bind_ok h
  obtain ⟨⟨control, r₁₅⟩, h₁₅, h⟩ := bind_ok h
  obtain ⟨limits, hvalid, h⟩ := bind_ok h
  obtain ⟨_, hfinish, h⟩ := bind_ok h
  cases h
  obtain ⟨-, c₁⟩ := (Reader.Consumed.new bytes).take h₁
  obtain ⟨-, c₂⟩ := c₁.number h₂
  obtain ⟨b₃, c₃⟩ := c₂.number h₃
  obtain ⟨b₄, c₄⟩ := c₃.number h₄
  obtain ⟨b₅, c₅⟩ := c₄.number h₅
  obtain ⟨b₆, c₆⟩ := c₅.number h₆
  have c₇ := c₆.array32 h₇
  have c₈ := c₇.array32 h₈
  obtain ⟨b₉, c₉⟩ := c₈.number h₉
  obtain ⟨b₁₀, c₁₀⟩ := c₉.number h₁₀
  obtain ⟨b₁₁, c₁₁⟩ := c₁₀.number h₁₁
  obtain ⟨b₁₂, c₁₂⟩ := c₁₁.number h₁₂
  obtain ⟨b₁₃, c₁₃⟩ := c₁₂.number h₁₃
  obtain ⟨b₁₄, c₁₄⟩ := c₁₃.number h₁₄
  obtain ⟨b₁₅, c₁₅⟩ := c₁₄.number h₁₅
  have hbytes := c₁₅.finish hfinish
  have hlimits := ProtocolLimits.validate_ok hvalid
  subst hlimits
  refine ⟨?_, hvalid, b₁₀, b₁₁, b₁₂, b₁₃, b₁₄, b₁₅⟩
  rw [hbytes]
  simp only [helloBytes, RunId.get_of_new (idOr_ok hrun) b₃, UInt16.toNat_ofNat_of_lt' b₄,
    UInt16.toNat_ofNat_of_lt' b₅, UInt16.toNat_ofNat_of_lt' b₆, UInt64.toNat_ofNat_of_lt' b₉,
    ← not_not.mp hmagic, ← not_not.mp hversion, List.nil_append, List.append_assoc]

theorem encodeHello_of_sendable {hello : Hello} (h : hello.limits.Sendable) :
    encodeHello hello = .ok (helloBytes hello) := by
  unfold encodeHello checkedU32
  rw [h.valid, checked_of_lt h.frame, checked_of_lt h.payload, if_pos h.segments, if_pos h.queued,
    checked_of_lt h.inflight, checked_of_lt h.control]
  rfl

/-! ## Reading with every index checked -/

/-- A result, or `none` where the source panics: an index out of range, a failed `unwrap`, a
    difference below zero. -/
abbrev Indexed (α : Type) := ExceptT ProtocolError Option α

/-- The panic. -/
def outOfBounds {α : Type} : Indexed α := ExceptT.mk none

namespace Reader

/-- `Reader::take` with the index `self.bytes[self.offset..end]`. -/
def takeIndexed (input : Reader) (length : Nat) : Indexed (List UInt8 × Reader) :=
  if u64Bound ≤ input.offset + length then throw .lengthOverflow
  else if input.bytes.length < input.offset + length then
    throw (.invalidLength (input.offset + length) input.bytes.length)
  else if input.offset ≤ input.offset + length ∧ input.offset + length ≤ input.bytes.length then
    return (slice input.bytes input.offset length, { input with offset := input.offset + length })
  else outOfBounds

/-- `Reader::u8` to `Reader::u128` with their index or `unwrap`. -/
def numberIndexed (input : Reader) (width : Nat) : Indexed (Nat × Reader) := do
  let (bytes, input) ← input.takeIndexed width
  if bytes.length = width then return (ofLe bytes, input) else outOfBounds

/-- `Reader::finish` with its difference. -/
def finishIndexed (input : Reader) : Indexed Unit :=
  if input.offset = input.bytes.length then return ()
  else if input.offset ≤ input.bytes.length then
    throw (.trailingBytes (input.bytes.length - input.offset))
  else outOfBounds

/-- The loop over the segment table. -/
def lengthsIndexed (limits : ProtocolLimits) :
    Nat → Nat → Reader → Indexed (List Nat × Nat × Reader)
  | 0, total, input => return ([], total, input)
  | count + 1, total, input => do
    let (length, input) ← input.numberIndexed 8
    let total ← checked (total + length)
    if limits.maxPayloadBytes < total then
      throw (.payloadTooLarge total limits.maxPayloadBytes)
    let (rest, total, input) ← lengthsIndexed limits count total input
    return (length :: rest, total, input)

/-- The loop over the segments. -/
def segmentsIndexed : List Nat → Reader → Indexed (Segments × Reader)
  | [], input => return ([], input)
  | length :: rest, input => do
    let (segment, input) ← input.takeIndexed length
    let (more, input) ← segmentsIndexed rest input
    return (segment :: more, input)

end Reader

/-- `decode_parcel` with every index checked. -/
def decodeParcelIndexed (bytes : List UInt8) (limits : ProtocolLimits) : Indexed Parcel := do
  let _ ← limits.validate
  if limits.maxFrameBytes < bytes.length then
    throw (.frameTooLarge bytes.length limits.maxFrameBytes)
  let (magic, input) ← Reader.takeIndexed ⟨bytes, 0⟩ 4
  if magic ≠ parcelMagic then throw .invalidMagic
  let (version, input) ← input.numberIndexed 4
  if version ≠ protocolVersion then throw (.invalidVersion version)
  let (run, input) ← input.numberIndexed 16
  let runId ← idOr "RunId" (RunId.new run)
  let (message, input) ← input.numberIndexed 16
  let messageId ← idOr "MessageId" (MessageId.new message)
  let (channel, input) ← input.numberIndexed 1
  let channel ← Channel.tryFrom channel
  let (kind, input) ← input.numberIndexed 1
  let kind ← ParcelKind.tryFrom kind
  let (source, input) ← input.numberIndexed 8
  let (destination, input) ← input.numberIndexed 8
  let (traceFlag, input) ← input.numberIndexed 1
  let (traceValue, input) ← input.numberIndexed 16
  let traceId ← decodeTrace traceFlag traceValue
  let (declared, input) ← input.numberIndexed 8
  let (count, input) ← input.numberIndexed 4
  if limits.maxSegments < count then throw (.tooManySegments count limits.maxSegments)
  if limits.maxPayloadBytes < declared then
    throw (.payloadTooLarge declared limits.maxPayloadBytes)
  let (lengths, total, input) ← input.lengthsIndexed limits count 0
  if total ≠ declared then throw (.payloadLengthMismatch declared total)
  let (segments, input) ← input.segmentsIndexed lengths
  input.finishIndexed
  let parcel : Parcel :=
    { runId := runId
      messageId := messageId
      channel := channel
      kind := kind
      source := ⟨UInt64.ofNat source⟩
      destination := ⟨UInt64.ofNat destination⟩
      traceId := traceId
      segments := segments }
  parcel.validate limits
  return parcel

/-! ## No index is out of range -/

/-- The program with the checked indices does not panic and ends as the plain one. -/
def Safe {α : Type} (indexed : Indexed α) (plain : Except ProtocolError α) : Prop :=
  indexed.run = some plain

section Safe

variable {α β : Type}

theorem Safe.bind {indexed : Indexed α} {plain : Except ProtocolError α} {next : α → Indexed β}
    {after : α → Except ProtocolError β} (h : Safe indexed plain)
    (hnext : ∀ value, plain = .ok value → Safe (next value) (after value)) :
    Safe (indexed >>= next) (plain >>= after) := by
  unfold Safe at h ⊢
  rw [ExceptT.run_bind, h]
  cases plain with
  | error error => rfl
  | ok value => exact hnext value rfl

theorem Safe.lift (plain : Except ProtocolError α) : Safe (liftM plain : Indexed α) plain := rfl

theorem Safe.guard {c : Prop} [Decidable c] {error : ProtocolError} {next : Unit → Indexed β}
    {after : Unit → Except ProtocolError β} (h : Safe (next ()) (after ())) :
    Safe (if c then (throw error >>= next) else next ())
      (if c then (Except.error error >>= after) else after ()) := by
  by_cases hc : c
  · rw [if_pos hc, if_pos hc]
    rfl
  · rw [if_neg hc, if_neg hc]
    exact h

end Safe

namespace Reader

theorem take_safe (input : Reader) (length : Nat) :
    Safe (input.takeIndexed length) (input.take length) := by
  unfold takeIndexed Reader.take
  split
  · rfl
  split
  · rfl
  · next hwithin =>
    rw [if_pos ⟨Nat.le_add_right _ _, Nat.not_lt.mp hwithin⟩]
    rfl

/-- A reader that took something stands within its bytes, and it took what it was asked for. -/
theorem take_within {input next : Reader} {length : Nat} {taken : List UInt8}
    (h : input.take length = .ok (taken, next)) :
    taken.length = length ∧ next.offset ≤ next.bytes.length := by
  unfold Reader.take at h
  split at h
  · cases h
  split at h
  · cases h
  · next hwithin =>
    cases h
    exact ⟨length_slice (Nat.not_lt.mp hwithin), Nat.not_lt.mp hwithin⟩

theorem number_safe (input : Reader) (width : Nat) :
    Safe (input.numberIndexed width) (input.number width) := by
  refine (take_safe input width).bind ?_
  rintro ⟨taken, next⟩ htake
  dsimp only
  rw [if_pos (take_within htake).1]
  rfl

theorem number_within {input next : Reader} {width value : Nat}
    (h : input.number width = .ok (value, next)) : next.offset ≤ next.bytes.length := by
  obtain ⟨⟨taken, after⟩, htake, hvalue⟩ := bind_ok h
  cases hvalue
  exact (take_within htake).2

theorem lengths_safe (limits : ProtocolLimits) (count total : Nat) (input : Reader) :
    Safe (lengthsIndexed limits count total input) (Reader.lengths limits count total input) := by
  induction count generalizing total input with
  | zero => rfl
  | succ count ih =>
    refine (number_safe input 8).bind ?_
    rintro ⟨length, next⟩ -
    refine (Safe.lift (checked (total + length))).bind ?_
    intro grown _
    apply Safe.guard
    refine (ih grown next).bind ?_
    rintro ⟨more, sum, last⟩ -
    rfl

theorem lengths_within {limits : ProtocolLimits} {count total sum : Nat} {input next : Reader}
    {found : List Nat} (hinput : input.offset ≤ input.bytes.length)
    (h : Reader.lengths limits count total input = .ok (found, sum, next)) :
    next.offset ≤ next.bytes.length := by
  induction count generalizing total input found with
  | zero =>
    cases h
    exact hinput
  | succ count ih =>
    unfold Reader.lengths at h
    obtain ⟨⟨length, after⟩, hnumber, h⟩ := bind_ok h
    obtain ⟨grown, -, h⟩ := bind_ok h
    obtain ⟨-, h⟩ := guard_ok h
    obtain ⟨⟨more, last, final⟩, hmore, h⟩ := bind_ok h
    cases h
    exact ih (number_within hnumber) hmore

theorem segments_safe (lengths : List Nat) (input : Reader) :
    Safe (segmentsIndexed lengths input) (Reader.segments lengths input) := by
  induction lengths generalizing input with
  | nil => rfl
  | cons length rest ih =>
    refine (take_safe input length).bind ?_
    rintro ⟨segment, next⟩ -
    refine (ih next).bind ?_
    rintro ⟨more, last⟩ -
    rfl

theorem segments_within {lengths : List Nat} {input next : Reader} {found : Segments}
    (hinput : input.offset ≤ input.bytes.length)
    (h : Reader.segments lengths input = .ok (found, next)) : next.offset ≤ next.bytes.length := by
  induction lengths generalizing input found with
  | nil =>
    cases h
    exact hinput
  | cons length rest ih =>
    unfold Reader.segments at h
    obtain ⟨⟨segment, after⟩, htake, h⟩ := bind_ok h
    obtain ⟨⟨more, final⟩, hmore, h⟩ := bind_ok h
    cases h
    exact ih (take_within htake).2 hmore

theorem finish_safe {input : Reader} (h : input.offset ≤ input.bytes.length) :
    Safe input.finishIndexed input.finish := by
  unfold finishIndexed Reader.finish
  rw [if_pos h]
  split <;> rfl

end Reader

/-- `decode_parcel` never indexes out of range, whatever bytes it gets. -/
theorem decodeParcel_safe (bytes : List UInt8) (limits : ProtocolLimits) :
    Safe (decodeParcelIndexed bytes limits) (decodeParcel bytes limits) := by
  unfold decodeParcelIndexed decodeParcel
  refine (Safe.lift _).bind fun _ _ => ?_
  apply Safe.guard
  refine (Reader.take_safe _ _).bind ?_
  rintro ⟨magic, r₁⟩ -
  apply Safe.guard
  refine (Reader.number_safe r₁ 4).bind ?_
  rintro ⟨version, r₂⟩ -
  apply Safe.guard
  refine (Reader.number_safe r₂ 16).bind ?_
  rintro ⟨run, r₃⟩ -
  refine (Safe.lift _).bind fun runId _ => ?_
  refine (Reader.number_safe r₃ 16).bind ?_
  rintro ⟨message, r₄⟩ -
  refine (Safe.lift _).bind fun messageId _ => ?_
  refine (Reader.number_safe r₄ 1).bind ?_
  rintro ⟨channelCode, r₅⟩ -
  refine (Safe.lift _).bind fun channel _ => ?_
  refine (Reader.number_safe r₅ 1).bind ?_
  rintro ⟨kindCode, r₆⟩ -
  refine (Safe.lift _).bind fun kind _ => ?_
  refine (Reader.number_safe r₆ 8).bind ?_
  rintro ⟨source, r₇⟩ -
  refine (Reader.number_safe r₇ 8).bind ?_
  rintro ⟨destination, r₈⟩ -
  refine (Reader.number_safe r₈ 1).bind ?_
  rintro ⟨flag, r₉⟩ -
  refine (Reader.number_safe r₉ 16).bind ?_
  rintro ⟨trace, r₁₀⟩ -
  refine (Safe.lift _).bind fun traceId _ => ?_
  refine (Reader.number_safe r₁₀ 8).bind ?_
  rintro ⟨declared, r₁₁⟩ -
  refine (Reader.number_safe r₁₁ 4).bind ?_
  rintro ⟨count, r₁₂⟩ h₁₂
  apply Safe.guard
  apply Safe.guard
  refine (Reader.lengths_safe limits count 0 r₁₂).bind ?_
  rintro ⟨lengths, total, r₁₃⟩ h₁₃
  apply Safe.guard
  refine (Reader.segments_safe lengths r₁₃).bind ?_
  rintro ⟨segments, r₁₄⟩ h₁₄
  have hwithin := Reader.segments_within
    (Reader.lengths_within (Reader.number_within h₁₂) h₁₃) h₁₄
  refine (Reader.finish_safe hwithin).bind fun _ _ => ?_
  refine (Safe.lift _).bind fun _ _ => ?_
  rfl

/-- Encoding and decoding are inverse to each other for parcels and for hellos, whatever the
    limits are, and no index of `decode_parcel` is out of range. -/
theorem wire_formats_exact (limits : ProtocolLimits) :
    (∀ parcel bytes, encodeParcel parcel limits = .ok bytes →
      parcel.encodedLen = .ok bytes.length ∧ bytes.length ≤ limits.maxFrameBytes ∧
        decodeParcel bytes limits = .ok parcel) ∧
    (∀ bytes parcel, decodeParcel bytes limits = .ok parcel →
      encodeParcel parcel limits = .ok bytes) ∧
    (∀ bytes, (decodeParcelIndexed bytes limits).run = some (decodeParcel bytes limits)) ∧
    (∀ hello bytes, encodeHello hello = .ok bytes →
      bytes.length = helloByteCount ∧ decodeHello bytes = .ok hello) ∧
    (∀ bytes hello, decodeHello bytes = .ok hello → encodeHello hello = .ok bytes) := by
  refine ⟨fun parcel bytes h => ?_, fun bytes parcel h => ?_,
    fun bytes => decodeParcel_safe bytes limits, fun hello bytes h => ?_,
    fun bytes hello h => ?_⟩
  · obtain ⟨rfl, hfits, hcount⟩ := encodeParcel_ok h
    rw [length_parcelBytes]
    exact ⟨Parcel.encodedLen_eq hfits.bound, hfits.frame,
      (decodeParcel_iff hfits.bound hcount).mpr ⟨rfl, hfits⟩⟩
  · obtain ⟨rfl, hfits, hcount⟩ := decodeParcel_ok h
    exact encodeParcel_of_fits hfits hcount
  · obtain ⟨rfl, hsendable⟩ := encodeHello_ok h
    exact ⟨length_helloBytes hello, decodeHello_helloBytes hsendable⟩
  · obtain ⟨rfl, hsendable⟩ := decodeHello_ok h
    exact encodeHello_of_sendable hsendable

end Hataori.Transport
