import Hataori.Algorithms.Ordered
import Hataori.Lib.Bytes
import Hataori.Runtime.Placement
import Hataori.Transport.Codec

/-!
# The two ways to a batch's reply

`WireValue` and `ActionRegistry::register` of `hataori-runtime/src/action.rs`, `spawn_on_with` of
`runtime.rs`, and the codecs of `hataori-algorithms/src/batch.rs`. A batch for the own locality is
moved to the handler as it is; any other one is encoded, and so is its reply. What crosses a
boundary between localities arrives as it was sent. `Display` of an action error quotes its text
as the standard library does, which is an argument here.
-/

namespace Hataori.Algorithms

open Hataori.Runtime Hataori.Transport Lib.Bytes

variable {A U T : Type}

/-! ## Actions -/

/-- `trait WireValue`. -/
structure WireValue (T : Type) where
  encode : T → Except ActionError Segments
  decode : Segments → Except ActionError T

/-- What a `Vec` of a `Vec` of bytes can hold. -/
def InMemory (segments : Segments) : Prop :=
  segments.length < u64Bound ∧ ∀ segment ∈ segments, segment.length < u64Bound

/-- Every value has an encoded form, and comes back from it; there is room for one more segment. -/
def WireValue.RoundTrips (wire : WireValue T) : Prop :=
  ∀ value, ∃ segments, wire.encode value = .ok segments ∧ wire.decode segments = .ok value ∧
    segments.length + 1 < u64Bound ∧ ∀ segment ∈ segments, segment.length < u64Bound

/-- `ActionValue`. -/
inductive ActionValue (T : Type) where
  | encoded (segments : Segments)
  | typed (value : T)

/-- `RegisteredAction`. -/
structure RegisteredAction (A U : Type) where
  handler : Segments → Except ActionError Segments
  localHandler : A → Except ActionError U

/-- `ActionRegistry::register`. -/
def register (input : WireValue A) (output : WireValue U) (handler : A → Except ActionError U) :
    RegisteredAction A U where
  handler := fun segments => do
    let input ← input.decode segments
    let found ← handler input
    output.encode found
  localHandler := handler

/-- `RegisteredAction::execute`, of a handler that does not panic. -/
def RegisteredAction.execute (action : RegisteredAction A U) :
    ActionValue A → Except ActionError (ActionValue U)
  | .encoded segments => (action.handler segments).map .encoded
  | .typed value => (action.localHandler value).map .typed

/-- `RegisteredAction::execute_encoded`. -/
def RegisteredAction.executeEncoded (action : RegisteredAction A U) (input : Segments) :
    Except ActionError Segments :=
  match action.execute (.encoded input) with
  | .error error => .error error
  | .ok (.encoded output) => .ok output
  | .ok (.typed _) => .error (.codec "encoded action returned typed output")

/-- `RemoteFuture::poll` when the promise is completed. -/
def taken (display : ActionError → String) (output : WireValue U) :
    Except RuntimeError (ActionValue U) → Except RuntimeError U
  | .error error => .error error
  | .ok (.typed value) => .ok value
  | .ok (.encoded segments) =>
    match output.decode segments with
    | .error error => .error (.protocol ("action output decode failed: " ++ display error))
    | .ok value => .ok value

/-- `spawn_on_with`, and what its future yields when the action was executed. -/
def spawnOnWith (display : ActionError → String) (request : RequestId) (localId : LocalityId)
    (place : Place) (input : WireValue A) (output : WireValue U) (action : RegisteredAction A U)
    (value : A) : Except RuntimeError U :=
  if place.locality = localId then
    match action.execute (.typed value) with
    | .error error => .error (.remoteAction request error.message)
    | .ok found => taken display output (.ok found)
  else
    match input.encode value with
    | .error error => .error (.protocol ("action encode failed: " ++ display error))
    | .ok payload =>
      let completion : ActionCompletion := ⟨action.executeEncoded payload, false⟩
      taken display output ((completion.response.result request).map .encoded)

/-! ## Nested values -/

/-- `MAX_BATCH_ITEMS`. -/
def maxBatchItems : Nat := 1048576

/-- `put`. -/
def put (value : Nat) (out : List UInt8) : Except ActionError (List UInt8) :=
  if u64Bound ≤ value then .error (.codec "batch count overflow") else .ok (out ++ toLe 8 value)

/-- `take`, with the offset behind the number. -/
def take (bytes : List UInt8) (offset : Nat) : Except ActionError (Nat × Nat) :=
  if u64Bound ≤ offset + 8 then .error (.codec "batch header overflow")
  else if bytes.length < offset + 8 then .error (.codec "truncated batch header")
  else .ok (field bytes offset 8, offset + 8)

/-- `put` for one number after another. -/
def putAll : List Nat → List UInt8 → Except ActionError (List UInt8)
  | [], out => .ok out
  | value :: rest, out => do
    let out ← put value out
    putAll rest out

/-- The loop of `encode_nested`; `header` is `out[0]`, and `out` the segments behind it. -/
def encodeItems (encode : T → Except ActionError Segments) :
    List T → List UInt8 → Segments → Except ActionError Segments
  | [], header, out => .ok (header :: out)
  | value :: rest, header, out => do
    let segments ← encode value
    let header ← put segments.length header
    let header ← putAll (segments.map List.length) header
    encodeItems encode rest header (out ++ segments)

/-- `encode_nested`. -/
def encodeNested (encode : T → Except ActionError Segments) (values : List T)
    (front : List UInt8) : Except ActionError Segments :=
  if maxBatchItems < values.length then .error (.codec "batch item limit exceeded")
  else do
    let header ← put values.length front
    encodeItems encode values header []

/-- `take` for some numbers in a row. -/
def takeAll (header : List UInt8) : Nat → Nat → Except ActionError (List Nat × Nat)
  | 0, offset => .ok ([], offset)
  | count + 1, offset => do
    let (value, offset) ← take header offset
    let (rest, offset) ← takeAll header count offset
    return (value :: rest, offset)

/-- The loop of `decode_nested` over the lengths. -/
def takeLengths (header : List UInt8) : Nat → Nat → Except ActionError (List (List Nat) × Nat)
  | 0, offset => .ok ([], offset)
  | count + 1, offset => do
    let (n, offset) ← take header offset
    let (item, offset) ← takeAll header n offset
    let (rest, offset) ← takeLengths header count offset
    return (item :: rest, offset)

/-- The loop of `decode_nested` over the values. -/
def decodeItems (decode : Segments → Except ActionError T) :
    List (List Nat) → Segments → Except ActionError (List T)
  | [], _ => .ok []
  | item :: rest, source =>
    let encoded := source.take item.length
    if encoded.map List.length ≠ item then .error (.codec "batch segment length mismatch")
    else do
      let value ← decode encoded
      let values ← decodeItems decode rest (source.drop item.length)
      return value :: values

/-- `decode_nested`; the header it also returns is not used. -/
def decodeNested (decode : Segments → Except ActionError T) (segments : Segments) (front : Nat) :
    Except ActionError (List T) :=
  match segments with
  | [] => .error (.codec "missing batch header")
  | header :: segments => do
    let (count, offset) ← take header front
    if maxBatchItems < count then .error (.codec "batch item limit exceeded")
    else
      let (lengths, offset) ← takeLengths header count offset
      if offset ≠ header.length then .error (.codec "trailing batch header bytes")
      else
        let expected := (lengths.map List.length).sum
        if u64Bound ≤ expected then .error (.codec "segment count overflow")
        else if segments.length ≠ expected then .error (.codec "batch segment count mismatch")
        else decodeItems decode lengths segments

/-! ## Batches and replies -/

/-- `LocalMode` as a byte. -/
def LocalMode.code : LocalMode → UInt8
  | .sequential => 0
  | .outer => 1
  | .inner => 2

/-- The mode of a byte. -/
def LocalMode.ofCode (code : UInt8) : Except ActionError LocalMode :=
  if code = 0 then .ok .sequential
  else if code = 1 then .ok .outer
  else if code = 2 then .ok .inner
  else .error (.codec "invalid local mode")

/-- `WireValue for BatchAction<A>`. -/
def batchActionWire (input : WireValue A) : WireValue (BatchAction A) where
  encode := fun batch => do
    let header ← put batch.start []
    encodeNested input.encode batch.items (header ++ [batch.mode.code])
  decode := fun segments =>
    match segments.head? with
    | none => .error (.codec "missing batch header")
    | some header => do
      let (start, offset) ← take header 0
      match header[offset]? with
      | none => .error (.codec "missing local mode")
      | some code =>
        let mode ← LocalMode.ofCode code
        let items ← decodeNested input.decode segments (offset + 1)
        return ⟨start, mode, items⟩

/-- `ReplyWire`. -/
inductive ReplyWire (T : Type) where
  | ok (value : T)
  | err (message : String)

/-- `MAX_ERROR_BYTES` of `batch.rs`. -/
def BatchReply.maxErrorBytes : Nat := 4096

/-- `WireValue for ReplyWire<T>`. -/
def replyWire (output : WireValue U) : WireValue (ReplyWire U) where
  encode
    | .ok value => do
      let segments ← output.encode value
      return [0] :: segments
    | .err message => .ok [[1], ofText message]
  decode
    | [] => .error (.codec "missing reply tag")
    | tag :: segments =>
      if tag = [0] then do
        let value ← output.decode segments
        return .ok value
      else if tag = [1] then
        match segments with
        | [text] =>
          if BatchReply.maxErrorBytes < text.length then .error (.codec "invalid callback error")
          else
            match toText text with
            | none => .error (.codec "callback error is not UTF-8")
            | some message => .ok (.err message)
        | _ => .error (.codec "invalid callback error")
      else .error (.codec "invalid reply tag")

/-- `while message.len() > MAX_ERROR_BYTES { message.pop(); }`, the last character first. -/
def popOver : List Char → List Char
  | [] => []
  | last :: front =>
    if (String.ofList (last :: front).reverse).utf8ByteSize ≤ BatchReply.maxErrorBytes then
      last :: front
    else popOver front

/-- The text of an error as a reply carries it. -/
def carriedText (message : String) : String := String.ofList (popOver message.toList.reverse).reverse

/-- An item of a reply on its way. -/
def ItemReply.toWire : ItemReply U → ReplyWire U
  | .ok value => .ok value
  | .err message => .err (carriedText message)

/-- An item of a reply that arrived. -/
def ReplyWire.toItem : ReplyWire U → ItemReply U
  | .ok value => .ok value
  | .err message => .err message

/-- `WireValue for BatchReply<T>`. -/
def batchReplyWire (output : WireValue U) : WireValue (BatchReply U) where
  encode := fun reply => do
    let header ← put reply.start []
    encodeNested (replyWire output).encode (reply.items.map ItemReply.toWire) header
  decode := fun segments =>
    match segments.head? with
    | none => .error (.codec "missing reply header")
    | some header => do
      let (start, offset) ← take header 0
      let values ← decodeNested (replyWire output).decode segments offset
      return ⟨start, values.map ReplyWire.toItem⟩

/-- `e.to_string()` of what a handler fails with. -/
def worded (display : ActionError → String) (handler : A → Except ActionError U) (item : A) :
    Except String U :=
  (handler item).mapError display

/-- `register_pmap_action`. -/
def registerPmapAction (display : ActionError → String) (input : WireValue A)
    (output : WireValue U) (handler : A → Except ActionError U) :
    RegisteredAction (BatchAction A) (BatchReply U) :=
  register (batchActionWire input) (batchReplyWire output) fun batch =>
    .ok (batchHandler (worded display handler) batch)

/-! ## Nested values come back -/

/-- The offset stands in front of `rest`. -/
def Stands (header : List UInt8) (offset : Nat) (rest : List UInt8) : Prop :=
  ∃ front, header = front ++ rest ∧ front.length = offset

/-- What the header says of one value. -/
def itemHeader (segments : Segments) : List UInt8 :=
  toLe 8 segments.length ++ (segments.map List.length).flatMap (toLe 8)

/-- A value has an encoded form and comes back from it. -/
def Carried (encode : T → Except ActionError Segments) (decode : Segments → Except ActionError T)
    (value : T) (segments : Segments) : Prop :=
  encode value = .ok segments ∧ decode segments = .ok value ∧ InMemory segments

variable {header rest : List UInt8} {offset value : Nat}
  {encode : T → Except ActionError Segments} {decode : Segments → Except ActionError T}
  {values : List T} {encoded : List Segments}

theorem Stands.take (h : Stands header offset (toLe 8 value ++ rest))
    (hlength : header.length < u64Bound) (hvalue : value < u64Bound) :
    take header offset = .ok (value, offset + 8) ∧ Stands header (offset + 8) rest := by
  obtain ⟨front, rfl, rfl⟩ := h
  have hfield : field (front ++ (toLe 8 value ++ rest)) front.length 8 = value := by
    rw [field, slice_skip rfl (Nat.le_refl _), Nat.sub_self, slice_front (length_toLe _ _),
      ofLe_toLe hvalue]
  simp only [List.length_append, length_toLe] at hlength
  constructor
  · rw [Algorithms.take, if_neg (by omega), if_neg (by simp), hfield]
  · exact ⟨front ++ toLe 8 value, by rw [List.append_assoc], by simp⟩

theorem put_ok (h : value < u64Bound) (out : List UInt8) :
    put value out = .ok (out ++ toLe 8 value) := by
  rw [put, if_neg (not_le.mpr h)]

theorem putAll_ok {numbers : List Nat} (h : ∀ number ∈ numbers, number < u64Bound)
    (out : List UInt8) : putAll numbers out = .ok (out ++ numbers.flatMap (toLe 8)) := by
  induction numbers generalizing out with
  | nil => simp [putAll]
  | cons number numbers ih =>
    rw [putAll, put_ok (h number List.mem_cons_self)]
    simp only [bind, Except.bind]
    rw [ih fun other hother => h other (List.mem_cons_of_mem _ hother), List.flatMap_cons,
      List.append_assoc]

theorem Stands.takeAll {numbers : List Nat} (h : Stands header offset (numbers.flatMap (toLe 8) ++ rest))
    (hlength : header.length < u64Bound) (hnumbers : ∀ number ∈ numbers, number < u64Bound) :
    ∃ next, takeAll header numbers.length offset = .ok (numbers, next) ∧
      Stands header next rest := by
  induction numbers generalizing offset with
  | nil => exact ⟨offset, rfl, h⟩
  | cons number numbers ih =>
    rw [List.flatMap_cons, List.append_assoc] at h
    obtain ⟨htake, hnext⟩ := h.take hlength (hnumbers number List.mem_cons_self)
    obtain ⟨next, hrest, hstands⟩ :=
      ih hnext fun other hother => hnumbers other (List.mem_cons_of_mem _ hother)
    refine ⟨next, ?_, hstands⟩
    rw [List.length_cons, Algorithms.takeAll, htake]
    simp only [bind, Except.bind, hrest]
    rfl

theorem InMemory.lengths {segments : Segments} (h : InMemory segments) :
    ∀ length ∈ segments.map List.length, length < u64Bound := by
  intro length hlength
  obtain ⟨segment, hsegment, rfl⟩ := List.mem_map.mp hlength
  exact h.2 segment hsegment

theorem encodeItems_ok (h : List.Forall₂ (Carried encode decode) values encoded)
    (header : List UInt8) (out : Segments) :
    encodeItems encode values header out =
      .ok ((header ++ encoded.flatMap itemHeader) :: (out ++ encoded.flatten)) := by
  induction h generalizing header out with
  | nil => simp [encodeItems]
  | cons hfirst _ ih =>
    obtain ⟨hencode, -, hmemory⟩ := hfirst
    rw [encodeItems, hencode]
    simp only [bind, Except.bind]
    rw [put_ok hmemory.1]
    dsimp only
    rw [putAll_ok hmemory.lengths]
    dsimp only
    rw [ih]
    simp [itemHeader]

theorem Stands.takeLengths (h : Stands header offset (encoded.flatMap itemHeader ++ rest))
    (hlength : header.length < u64Bound) (hencoded : ∀ segments ∈ encoded, InMemory segments) :
    ∃ next, takeLengths header encoded.length offset =
        .ok (encoded.map fun segments => segments.map List.length, next) ∧
      Stands header next rest := by
  induction encoded generalizing offset with
  | nil => exact ⟨offset, rfl, h⟩
  | cons segments encoded ih =>
    have hmemory := hencoded segments List.mem_cons_self
    rw [List.flatMap_cons, itemHeader, List.append_assoc, List.append_assoc] at h
    obtain ⟨htake, hitem⟩ := h.take hlength hmemory.1
    obtain ⟨mid, hall, hmid⟩ := hitem.takeAll hlength hmemory.lengths
    obtain ⟨next, hrest, hstands⟩ :=
      ih hmid fun other hother => hencoded other (List.mem_cons_of_mem _ hother)
    rw [List.length_map] at hall
    refine ⟨next, ?_, hstands⟩
    rw [List.length_cons, Algorithms.takeLengths, htake]
    simp only [bind, Except.bind, hall, hrest]
    rfl

theorem decodeItems_ok (h : List.Forall₂ (Carried encode decode) values encoded) :
    decodeItems decode (encoded.map fun segments => segments.map List.length) encoded.flatten =
      .ok values := by
  induction h with
  | nil => rfl
  | cons hfirst _ ih =>
    rw [List.map_cons, decodeItems, List.length_map, List.flatten_cons, List.take_left,
      List.drop_left, if_neg (not_not.mpr rfl), hfirst.2.1, ih]
    rfl

/-- What `encode_nested` wrote behind `front` comes back. -/
theorem nested_roundTrip (hcount : values.length ≤ maxBatchItems)
    (h : ∀ value ∈ values, ∃ segments, Carried encode decode value segments)
    (front : List UInt8) :
    ∃ header segments, encodeNested encode values front = .ok (header :: segments) ∧
      front <+: header ∧
      (InMemory (header :: segments) →
        decodeNested decode (header :: segments) front.length = .ok values) := by
  obtain ⟨encoded, hencoded, hmemories⟩ : ∃ encoded,
      List.Forall₂ (Carried encode decode) values encoded ∧
        ∀ segments ∈ encoded, InMemory segments := by
    clear hcount
    induction values with
    | nil => exact ⟨[], .nil, by simp⟩
    | cons value values ih =>
      obtain ⟨segments, hsegments⟩ := h value List.mem_cons_self
      obtain ⟨encoded, hencoded, hmemories⟩ :=
        ih fun other hother => h other (List.mem_cons_of_mem _ hother)
      exact ⟨segments :: encoded, .cons hsegments hencoded,
        List.forall_mem_cons.mpr ⟨hsegments.2.2, hmemories⟩⟩
  have hlength := hencoded.length_eq
  have hbound : values.length < u64Bound := hcount.trans_lt (by decide)
  refine ⟨front ++ toLe 8 values.length ++ encoded.flatMap itemHeader, encoded.flatten, ?_,
    by rw [List.append_assoc]; exact List.prefix_append _ _, fun hmemory => ?_⟩
  · rw [encodeNested, if_neg (not_lt.mpr hcount), put_ok hbound]
    simp only [bind, Except.bind]
    rw [encodeItems_ok hencoded, List.nil_append]
  · have hheader := hmemory.2 _ List.mem_cons_self
    have hstart : Stands (front ++ toLe 8 values.length ++ encoded.flatMap itemHeader)
        front.length (toLe 8 values.length ++ (encoded.flatMap itemHeader ++ [])) :=
      ⟨front, by simp, rfl⟩
    obtain ⟨htake, hlengths⟩ := hstart.take hheader hbound
    obtain ⟨next, htaken, hend⟩ := hlengths.takeLengths hheader hmemories
    obtain ⟨whole, hwhole, hnext⟩ := hend
    rw [List.append_nil] at hwhole
    rw [← hlength] at htaken
    have hsum : ((encoded.map fun segments => segments.map List.length).map List.length).sum =
        encoded.flatten.length := by
      rw [List.length_flatten, List.map_map]
      congr 1
      exact List.map_congr_left fun segments _ => List.length_map _
    have htotal : encoded.flatten.length < u64Bound :=
      (Nat.lt_succ_self _).trans (by simpa using hmemory.1)
    rw [decodeNested]
    simp only [bind, Except.bind, htake]
    rw [if_neg (not_lt.mpr hcount), htaken]
    dsimp only
    rw [if_neg (not_not.mpr (by rw [hwhole, hnext])), hsum, if_neg (not_le.mpr htotal),
      if_neg (not_not.mpr rfl), decodeItems_ok hencoded]

/-! ## The codecs of batches and replies -/

theorem LocalMode.ofCode_code (mode : LocalMode) : LocalMode.ofCode mode.code = .ok mode := by
  cases mode <;> rfl

/-- A batch that has at most the permitted items comes back. -/
theorem batchAction_roundTrip {input : WireValue A} (hinput : input.RoundTrips)
    {batch : BatchAction A} (hstart : batch.start < u64Bound)
    (hcount : batch.items.length ≤ maxBatchItems) :
    ∃ payload, (batchActionWire input).encode batch = .ok payload ∧
      (InMemory payload → (batchActionWire input).decode payload = .ok batch) := by
  have hitems : ∀ item ∈ batch.items, ∃ segments, Carried input.encode input.decode item segments := by
    intro item _
    obtain ⟨segments, hencode, hdecode, hlength, hsegments⟩ := hinput item
    exact ⟨segments, hencode, hdecode, (Nat.lt_succ_self _).trans hlength, hsegments⟩
  obtain ⟨header, segments, hencode, hfront, hdecode⟩ :=
    nested_roundTrip hcount hitems (toLe 8 batch.start ++ [batch.mode.code])
  refine ⟨header :: segments, ?_, fun hmemory => ?_⟩
  · rw [← hencode]
    unfold batchActionWire
    simp only [bind, Except.bind]
    rw [put_ok hstart]
    rfl
  · obtain ⟨rest, rfl⟩ := hfront
    have hstands : Stands (toLe 8 batch.start ++ [batch.mode.code] ++ rest) 0
        (toLe 8 batch.start ++ ([batch.mode.code] ++ rest)) := ⟨[], by simp, rfl⟩
    obtain ⟨htake, -⟩ := hstands.take (hmemory.2 _ List.mem_cons_self) hstart
    have hmode : (toLe 8 batch.start ++ [batch.mode.code] ++ rest)[8]? = some batch.mode.code := by
      rw [List.append_assoc, List.getElem?_append_right (by simp)]
      simp
    have hitems := hdecode hmemory
    rw [List.length_append, length_toLe, List.length_singleton] at hitems
    unfold batchActionWire
    simp only [List.head?_cons, bind, Except.bind, htake, hmode, LocalMode.ofCode_code, hitems,
      Nat.zero_add]
    rfl

/-- The loop leaves a text that fits. -/
theorem utf8ByteSize_popOver (text : List Char) :
    (String.ofList (popOver text).reverse).utf8ByteSize ≤ BatchReply.maxErrorBytes := by
  induction text with
  | nil => exact Nat.zero_le _
  | cons last front ih =>
    rw [popOver]
    split
    · assumption
    · exact ih

theorem utf8ByteSize_carriedText (message : String) :
    (carriedText message).utf8ByteSize ≤ BatchReply.maxErrorBytes :=
  utf8ByteSize_popOver _

/-- A text that fits stays as it is, and no other one does. -/
theorem carriedText_eq_iff (message : String) :
    carriedText message = message ↔ message.utf8ByteSize ≤ BatchReply.maxErrorBytes := by
  constructor
  · intro hsame
    rw [← hsame]
    exact utf8ByteSize_carriedText message
  · intro hfits
    have hkept : popOver message.toList.reverse = message.toList.reverse := by
      cases hlist : message.toList.reverse with
      | nil => rfl
      | cons last front =>
        rw [popOver, if_pos]
        rwa [← hlist, List.reverse_reverse, String.ofList_toList]
    rw [carriedText, hkept, List.reverse_reverse, String.ofList_toList]

/-- An item of a reply on its way comes back. -/
theorem replyWire_carried {output : WireValue U} (houtput : output.RoundTrips) (item : ItemReply U) :
    ∃ segments, Carried (replyWire output).encode (replyWire output).decode item.toWire segments := by
  cases item with
  | ok value =>
    obtain ⟨segments, hencode, hdecode, hlength, hsegments⟩ := houtput value
    refine ⟨[0] :: segments, ?_, ?_, hlength, ?_⟩
    · simp only [replyWire, ItemReply.toWire, hencode]
      rfl
    · simp only [replyWire, ItemReply.toWire, hdecode]
      rfl
    · exact List.forall_mem_cons.mpr ⟨by decide, hsegments⟩
  | err message =>
    have hsize : (ofText (carriedText message)).length ≤ BatchReply.maxErrorBytes := by
      rw [length_ofText]
      exact utf8ByteSize_carriedText message
    refine ⟨[[1], ofText (carriedText message)], rfl, ?_, ?_⟩
    · simp only [replyWire, ItemReply.toWire]
      rw [if_neg (by decide), if_pos trivial, if_neg (not_lt.mpr hsize), toText_ofText]
    · refine ⟨(by decide : 2 < u64Bound), fun segment hsegment => ?_⟩
      rcases List.mem_cons.mp hsegment with rfl | hsegment
      · exact (by decide : 1 < u64Bound)
      · rw [List.mem_singleton.mp hsegment]
        exact hsize.trans_lt (by decide)

/-- What arrives of a reply. -/
def carriedReply (reply : BatchReply U) : BatchReply U :=
  ⟨reply.start, reply.items.map fun item => item.toWire.toItem⟩

/-- A reply comes back with the texts cut. -/
theorem batchReply_roundTrip {output : WireValue U} (houtput : output.RoundTrips)
    {reply : BatchReply U} (hstart : reply.start < u64Bound)
    (hcount : reply.items.length ≤ maxBatchItems) :
    ∃ payload, (batchReplyWire output).encode reply = .ok payload ∧
      (InMemory payload → (batchReplyWire output).decode payload = .ok (carriedReply reply)) := by
  have hitems : ∀ value ∈ reply.items.map ItemReply.toWire, ∃ segments,
      Carried (replyWire output).encode (replyWire output).decode value segments := by
    intro value hvalue
    obtain ⟨item, -, rfl⟩ := List.mem_map.mp hvalue
    exact replyWire_carried houtput item
  obtain ⟨header, segments, hencode, hfront, hdecode⟩ :=
    nested_roundTrip (by rwa [List.length_map]) hitems (toLe 8 reply.start)
  refine ⟨header :: segments, ?_, fun hmemory => ?_⟩
  · rw [← hencode]
    unfold batchReplyWire
    simp only [bind, Except.bind]
    rw [put_ok hstart]
    rfl
  · obtain ⟨rest, rfl⟩ := hfront
    have hstands : Stands (toLe 8 reply.start ++ rest) 0 (toLe 8 reply.start ++ rest) :=
      ⟨[], rfl, rfl⟩
    obtain ⟨htake, -⟩ := hstands.take (hmemory.2 _ List.mem_cons_self) hstart
    have hitems := hdecode hmemory
    rw [length_toLe] at hitems
    unfold batchReplyWire
    simp only [List.head?_cons, bind, Except.bind, htake, hitems, Nat.zero_add]
    simp [carriedReply, pure, Except.pure, Function.comp_def]

/-! ## The two ways -/

variable {display : ActionError → String} {input : WireValue A} {output : WireValue U}
  {handler : A → Except ActionError U} {batch : BatchAction A}

/-- The reply of a batch, before it is encoded. -/
def replyOf (display : ActionError → String) (handler : A → Except ActionError U)
    (batch : BatchAction A) : BatchReply U :=
  batchHandler (worded display handler) batch

/-- What arrives is the reply where every error text fits, and only there. -/
theorem carriedReply_eq_iff :
    carriedReply (replyOf display handler batch) = replyOf display handler batch ↔
      ∀ item ∈ batch.items, ∀ error, handler item = .error error →
        (display error).utf8ByteSize ≤ BatchReply.maxErrorBytes := by
  have hsame : carriedReply (replyOf display handler batch) = replyOf display handler batch ↔
      ∀ item ∈ batch.items, (applyHandler (worded display handler) item).toWire.toItem =
        applyHandler (worded display handler) item := by
    unfold carriedReply replyOf batchHandler
    rw [BatchReply.mk.injEq, List.map_map, List.map_inj_left]
    simp
  rw [hsame]
  refine forall₂_congr fun item _ => ?_
  unfold applyHandler worded
  cases handler item with
  | ok value => simp [Except.mapError, ItemReply.toWire, ReplyWire.toItem]
  | error error =>
    simp only [Except.mapError, ItemReply.toWire, ReplyWire.toItem, ItemReply.err.injEq,
      carriedText_eq_iff, Except.error.injEq]
    constructor
    · rintro hfits _ rfl
      exact hfits
    · exact fun h => h error rfl

/-- On the own locality the reply is the handler's. -/
theorem spawnOnWith_local {localId : LocalityId} {place : Place}
    (h : place.locality = localId) (display : ActionError → String) (request : RequestId)
    (input : WireValue A) (output : WireValue U) (handler : A → Except ActionError U)
    (batch : BatchAction A) :
    spawnOnWith display request localId place (batchActionWire input) (batchReplyWire output)
        (registerPmapAction display input output handler) batch =
      .ok (replyOf display handler batch) := by
  rw [spawnOnWith, if_pos h]
  rfl

/-- From another locality the reply comes with its texts cut. -/
theorem spawnOnWith_remote {localId : LocalityId} {place : Place} (h : place.locality ≠ localId)
    (request : RequestId) (hinput : input.RoundTrips) (houtput : output.RoundTrips)
    (hstart : batch.start < u64Bound) (hcount : batch.items.length ≤ maxBatchItems)
    (hsent : ∀ payload, (batchActionWire input).encode batch = .ok payload → InMemory payload)
    (hreply : ∀ payload, (batchReplyWire output).encode (replyOf display handler batch) =
      .ok payload → InMemory payload) :
    spawnOnWith display request localId place (batchActionWire input) (batchReplyWire output)
        (registerPmapAction display input output handler) batch =
      .ok (carriedReply (replyOf display handler batch)) := by
  obtain ⟨payload, hencode, hdecode⟩ := batchAction_roundTrip hinput hstart hcount
  have hitems : (replyOf display handler batch).items.length ≤ maxBatchItems := by
    rwa [replyOf, batchHandler, List.length_map]
  obtain ⟨answer, hanswer, hfinal⟩ := batchReply_roundTrip houtput
    (show (replyOf display handler batch).start < u64Bound from hstart) hitems
  have hexecute : (registerPmapAction display input output handler).executeEncoded payload =
      .ok answer := by
    unfold RegisteredAction.executeEncoded RegisteredAction.execute registerPmapAction register
    simp only [bind, Except.bind, hdecode (hsent payload hencode)]
    rw [show batchHandler (worded display handler) batch = replyOf display handler batch from rfl,
      hanswer]
    rfl
  rw [spawnOnWith, if_neg h, hencode]
  dsimp only
  rw [hexecute]
  simp only [ActionCompletion.response, Response.result, Except.map, taken, Bool.false_eq_true,
    if_false]
  rw [hfinal (hreply answer hanswer)]

/-- A chunk has at most the size asked for, and starts where there are items. -/
theorem cut_bounds {batchSize : Nat} {mode : LocalMode} {fuel start : Nat} {items : List A}
    (h : batch ∈ (cut batchSize fuel start items).map (toBatch mode)) :
    batch.items.length ≤ batchSize ∧ batch.start ≤ start + items.length := by
  induction fuel generalizing start items with
  | zero => cases h
  | succ fuel ih =>
    rw [cut] at h
    split at h
    · cases h
    dsimp only at h
    rw [List.map_cons, List.mem_cons] at h
    rcases h with rfl | h
    · exact ⟨List.length_take_le _ _, Nat.le_add_right _ _⟩
    · have hrest := ih h
      rw [List.length_take, List.length_drop] at hrest
      omega

theorem validate_ok {options : PmapOptions} (h : options.validate = .ok ()) :
    options.batchSize ≤ maxBatchItems := by
  unfold PmapOptions.validate at h
  split at h
  · cases h
  next hsize =>
  exact not_lt.mp fun hlarge => hsize (.inr hlarge)

/-- A batch of `pmap` has at most the permitted items, and starts where there are items. -/
theorem batch_bounds {items : List A} {options : PmapOptions} {targets : Nat}
    {future : PmapFuture A U} (hpmap : pmap items options targets = .ok future)
    (hbatch : batch ∈ batches options items) :
    batch.items.length ≤ maxBatchItems ∧ batch.start ≤ items.length := by
  obtain ⟨hlength, hstart⟩ := cut_bounds hbatch
  refine ⟨hlength.trans ?_, by rwa [Nat.zero_add] at hstart⟩
  unfold pmap at hpmap
  obtain ⟨limited, hlimited, hbuild⟩ := bind_ok hpmap
  obtain ⟨-, rfl⟩ := withTargets_ok hlimited
  obtain ⟨_, hvalid, -⟩ := bind_ok hbuild
  exact validate_ok hvalid

/-- `WireValue for u64`. -/
def u64Wire : WireValue UInt64 where
  encode := fun value => .ok [toLe 8 value.toNat]
  decode
    | [bytes] =>
      if bytes.length = 8 then .ok (UInt64.ofNat (ofLe bytes))
      else .error (.codec "u64 payload must contain 8 bytes")
    | _ => .error (.codec "u64 requires exactly one segment")

theorem u64Wire_roundTrips : u64Wire.RoundTrips := by
  intro value
  refine ⟨[toLe 8 value.toNat], rfl, ?_, (by decide : 2 < u64Bound), ?_⟩
  · simp only [u64Wire, length_toLe, if_true]
    rw [ofLe_toLe value.toNat_lt, UInt64.ofNat_toNat]
  · intro segment hsegment
    rw [List.mem_singleton.mp hsegment, length_toLe]
    decide

/-- `Display` of an action error whose text needs no quoting. -/
def plainDisplay : ActionError → String
  | .codec message => "action error: Codec(\"" ++ message ++ "\")"
  | .user message => "action error: User(\"" ++ message ++ "\")"
  | .panic => "action error: Panic"

/-- An action that fails on every item. -/
def failing (message : String) (_ : UInt64) : Except ActionError UInt64 := .error (.user message)

/-- A batch of one item. -/
def oneItem : BatchAction UInt64 := ⟨0, .sequential, [7]⟩

/-- What locality 0 gets when it sends the batch to a locality. -/
def dispatched (locality : LocalityId) (message : String) :
    Except RuntimeError (BatchReply UInt64) :=
  spawnOnWith plainDisplay ⟨⟨0⟩, 1, u64_one⟩ ⟨0⟩ ⟨locality, ⟨0⟩⟩ (batchActionWire u64Wire)
    (batchReplyWire u64Wire) (registerPmapAction plainDisplay u64Wire u64Wire (failing message))
    oneItem

theorem oneItem_inMemory :
    ∀ payload, (batchActionWire u64Wire).encode oneItem = .ok payload → InMemory payload := by
  intro payload h
  cases h
  exact ⟨by decide, by decide⟩

/-- The reply to it, as it is encoded. -/
theorem encode_failing (message : String) :
    (batchReplyWire u64Wire).encode (replyOf plainDisplay (failing message) oneItem) =
        .ok [toLe 8 0 ++ toLe 8 1 ++ toLe 8 2 ++ toLe 8 1 ++
            toLe 8 (ofText (carriedText (plainDisplay (.user message)))).length,
          [1], ofText (carriedText (plainDisplay (.user message)))] := by
  have hsize : (ofText (carriedText (plainDisplay (.user message)))).length < u64Bound := by
    rw [length_ofText]
    exact (utf8ByteSize_carriedText _).trans_lt (by decide)
  have hzero : put 0 [] = .ok (toLe 8 0) := rfl
  have hone : (1 : Nat) < u64Bound := by decide
  have htwo : (2 : Nat) < u64Bound := by decide
  have hfew : ¬maxBatchItems < 1 := by decide
  simp only [batchReplyWire, replyOf, batchHandler, worded, failing, oneItem, applyHandler,
    Except.mapError, List.map_cons, List.map_nil, ItemReply.toWire, hzero, bind, Except.bind,
    encodeNested, List.length_cons, List.length_nil, Nat.zero_add, hfew, if_false, put_ok hone,
    encodeItems, replyWire, put_ok htwo, putAll, put_ok hsize, List.nil_append]

theorem failing_inMemory (message : String) :
    ∀ payload, (batchReplyWire u64Wire).encode (replyOf plainDisplay (failing message) oneItem) =
      .ok payload → InMemory payload := by
  intro payload h
  rw [encode_failing] at h
  cases h
  have hsize := utf8ByteSize_carriedText (plainDisplay (.user message))
  rw [← length_ofText] at hsize
  refine ⟨(by decide : 3 < u64Bound), ?_⟩
  simp only [List.forall_mem_cons, List.length_append, length_toLe]
  exact ⟨by decide, by decide, hsize.trans_lt (by decide), by simp⟩

theorem dispatched_here (message : String) :
    dispatched ⟨0⟩ message = .ok (replyOf plainDisplay (failing message) oneItem) := by
  unfold dispatched
  apply spawnOnWith_local
  rfl

theorem dispatched_there (message : String) :
    dispatched ⟨1⟩ message =
      .ok (carriedReply (replyOf plainDisplay (failing message) oneItem)) := by
  unfold dispatched
  exact spawnOnWith_remote (by decide) _ u64Wire_roundTrips u64Wire_roundTrips (by decide)
    (by decide) oneItem_inMemory (failing_inMemory message)

theorem le_plainDisplay (message : String) :
    20 + message.utf8ByteSize ≤ (plainDisplay (.user message)).utf8ByteSize := by
  have hfront : ("action error: User(\"" : String).utf8ByteSize = 20 := by decide
  unfold plainDisplay
  rw [String.utf8ByteSize_append, String.utf8ByteSize_append, hfront]
  exact Nat.le_add_right _ _

theorem dispatched_ne {message : String} (h : message.utf8ByteSize = 4096) :
    dispatched ⟨0⟩ message ≠ dispatched ⟨1⟩ message := by
  intro hsame
  rw [dispatched_here, dispatched_there, Except.ok.injEq] at hsame
  have hall := carriedReply_eq_iff.mp hsame.symm
  have hfits := (le_plainDisplay message).trans
    (hall 7 (List.mem_singleton.mpr rfl) (.user message) rfl)
  rw [h] at hfits
  exact absurd hfits (by decide)

/-- The item fails with the longest text that `ActionError::user` keeps: the reply of the own
    locality carries all of it, and that of another locality only the front. -/
theorem dispatch_differs :
    u64Wire.RoundTrips ∧
      dispatched ⟨0⟩ (String.ofList (List.replicate 4096 'a')) ≠
        dispatched ⟨1⟩ (String.ofList (List.replicate 4096 'a')) :=
  ⟨u64Wire_roundTrips, dispatched_ne (utf8ByteSize_replicate 4096)⟩

/-- The batches of a `pmap`, with codecs that round-trip: what the controller gets from its own
    locality and what it gets from another one agree exactly when the error text of every item
    that fails is short enough. -/
theorem dispatch_agrees_iff {items : List A} {options : PmapOptions} {targets : Nat}
    {future : PmapFuture A U} (hpmap : pmap items options targets = .ok future)
    (hitems : items.length < u64Bound) (hbatch : batch ∈ batches options items)
    (hinput : input.RoundTrips) (houtput : output.RoundTrips)
    (hsent : ∀ payload, (batchActionWire input).encode batch = .ok payload → InMemory payload)
    (hreply : ∀ payload, (batchReplyWire output).encode (replyOf display handler batch) =
      .ok payload → InMemory payload)
    (request : RequestId) {localId : LocalityId} {here there : Place}
    (hhere : here.locality = localId) (hthere : there.locality ≠ localId) :
    spawnOnWith display request localId here (batchActionWire input) (batchReplyWire output)
          (registerPmapAction display input output handler) batch =
        spawnOnWith display request localId there (batchActionWire input) (batchReplyWire output)
          (registerPmapAction display input output handler) batch ↔
      ∀ item ∈ batch.items, ∀ error, handler item = .error error →
        (display error).utf8ByteSize ≤ BatchReply.maxErrorBytes := by
  obtain ⟨hcount, hstart⟩ := batch_bounds hpmap hbatch
  rw [spawnOnWith_local hhere, spawnOnWith_remote hthere request hinput houtput
    (hstart.trans_lt hitems) hcount hsent hreply, Except.ok.injEq, eq_comm]
  exact carriedReply_eq_iff

/-- The one item of the batch fails with a short text, and the reply is the same from both. -/
theorem dispatch_agrees_iff_short : dispatched ⟨0⟩ "odd" = dispatched ⟨1⟩ "odd" := by
  obtain ⟨future, hpmap⟩ : ∃ future : PmapFuture UInt64 UInt64,
      pmap [7] ⟨1, .sequential, false, 1, ⟨0⟩, 0⟩ 2 = .ok future := ⟨_, rfl⟩
  refine (dispatch_agrees_iff hpmap (by decide) (List.mem_singleton.mpr rfl) u64Wire_roundTrips
    u64Wire_roundTrips oneItem_inMemory (failing_inMemory "odd") _ rfl (by decide)).mpr ?_
  intro item hitem error herror
  cases herror
  decide

end Hataori.Algorithms
