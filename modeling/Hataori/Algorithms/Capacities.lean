import Hataori.Algorithms.Codecs

/-!
# What the decoders of batches reserve

`decode_nested` of `hataori-algorithms/src/batch.rs` once more, with the capacity that it reserves
while it reads the header, and the loop of `poll` with the addition that finds an index. The
vectors made after the header has been read to its end are as long as what was read.
-/

namespace Hataori.Algorithms

open Hataori.Runtime Hataori.Transport Lib.Bytes

variable {A U T V : Type}

/-! ## Decoding with its reservations -/

/-- `isize::MAX`, which no allocation exceeds. -/
def isizeMax : Nat := 9223372036854775807

/-- A `Vec::with_capacity`, with the bytes of the header that are not read yet. -/
structure Reservation where
  elements : Nat
  remaining : Nat
  deriving DecidableEq, Repr

/-- The bytes that are left have room for a number for each element. -/
def Reservation.Described (reservation : Reservation) : Prop :=
  8 * reservation.elements ≤ reservation.remaining

/-- What a decoder reserves, and what it returns; `none` is a panic. -/
structure Decoding (T : Type) where
  reserved : List Reservation
  result : Option (Except ActionError T)

namespace Decoding

/-- A step that reserves nothing. -/
def step (result : Except ActionError T) : Decoding T := ⟨[], some result⟩

instance : Monad Decoding where
  pure value := step (.ok value)
  bind first next :=
    match first.result with
    | none => ⟨first.reserved, none⟩
    | some (.error error) => ⟨first.reserved, some (.error error)⟩
    | some (.ok value) => ⟨first.reserved ++ (next value).reserved, (next value).result⟩

/-- `Vec::with_capacity`, which panics where the bytes of the elements overflow. -/
def withCapacity (size elements remaining : Nat) : Decoding Unit where
  reserved := [⟨elements, remaining⟩]
  result := if isizeMax < size * elements then none else some (.ok ())

/-- It returns, and reserves only for what the header can describe. -/
structure Safe (decoding : Decoding T) : Prop where
  returns : decoding.result ≠ none
  described : ∀ reservation ∈ decoding.reserved, reservation.Described

/-- If it returns, it returns this. -/
def Agrees (decoding : Decoding T) (plain : Except ActionError T) : Prop :=
  decoding.result ≠ none → decoding.result = some plain

@[simp] theorem safe_step (result : Except ActionError T) : (step result).Safe :=
  ⟨by simp [step], by simp [step]⟩

@[simp] theorem safe_pure (value : T) : (pure value : Decoding T).Safe := safe_step (.ok value)

@[simp] theorem step_ok_bind (value : T) (next : T → Decoding V) :
    step (.ok value) >>= next = next value := rfl

@[simp] theorem step_error_bind (error : ActionError) (next : T → Decoding V) :
    step (.error error) >>= next = step (.error error) := rfl

theorem agrees_step (result : Except ActionError T) : (step result).Agrees result := fun _ => rfl

theorem safe_bind {first : Decoding T} {next : T → Decoding V} :
    (first >>= next).Safe ↔
      first.Safe ∧ ∀ value, first.result = some (.ok value) → (next value).Safe := by
  obtain ⟨reserved, result⟩ := first
  cases result with
  | none => exact ⟨fun h => absurd rfl h.returns, fun h => absurd rfl h.1.returns⟩
  | some result =>
    cases result with
    | error error =>
      refine ⟨fun h => ⟨⟨by simp, h.described⟩, by simp⟩, fun h => ⟨?_, h.1.described⟩⟩
      simp [bind]
    | ok value =>
      constructor
      · intro h
        refine ⟨⟨by simp, fun one hone => h.described one (List.mem_append_left _ hone)⟩, ?_⟩
        rintro _ ⟨⟩
        exact ⟨h.returns, fun one hone => h.described one (List.mem_append_right _ hone)⟩
      · rintro ⟨hfirst, hnext⟩
        refine ⟨(hnext value rfl).returns, fun one hone => ?_⟩
        rcases List.mem_append.mp hone with hone | hone
        · exact hfirst.described one hone
        · exact (hnext value rfl).described one hone

theorem agrees_bind {first : Decoding T} {next : T → Decoding V} {plain : Except ActionError T}
    {rest : T → Except ActionError V} (hfirst : first.Agrees plain)
    (hnext : ∀ value, (next value).Agrees (rest value)) :
    (first >>= next).Agrees (plain >>= rest) := by
  intro hreturns
  obtain ⟨reserved, result⟩ := first
  cases result with
  | none => exact absurd rfl hreturns
  | some result =>
    cases Option.some.inj (hfirst (by simp))
    cases plain with
    | error error => rfl
    | ok value => exact hnext value hreturns

theorem agrees_reserve {size elements remaining : Nat} {next : Unit → Decoding T}
    {plain : Except ActionError T} (h : (next ()).Agrees plain) :
    (withCapacity size elements remaining >>= next).Agrees plain := by
  intro hreturns
  by_cases hlarge : isizeMax < size * elements
  · refine absurd ?_ hreturns
    simp [bind, withCapacity, hlarge]
  · have hresult : (withCapacity size elements remaining >>= next).result = (next ()).result := by
      simp [bind, withCapacity, hlarge]
    rw [hresult] at hreturns ⊢
    exact h hreturns

/-- What follows a safe step has to be safe for everything it may return. -/
theorem safe_bind_pure {first : Decoding T} {next : T → V} :
    (first >>= fun value => pure (next value)).Safe ↔ first.Safe := by
  rw [safe_bind]
  exact and_iff_left fun value _ => safe_pure (next value)

theorem safe_withCapacity {size elements remaining : Nat}
    (hroom : 8 * elements ≤ remaining → size * elements ≤ isizeMax) :
    (withCapacity size elements remaining).Safe ↔ 8 * elements ≤ remaining := by
  constructor
  · exact fun h => h.described ⟨elements, remaining⟩ List.mem_cons_self
  · intro hdescribed
    refine ⟨?_, fun one hone => ?_⟩
    · simp [withCapacity, if_neg (not_lt.mpr (hroom hdescribed))]
    · rw [List.mem_singleton.mp hone]
      exact hdescribed

end Decoding

open Decoding

/-! ## The decoders -/

/-- The loop of `decode_nested` over the lengths, see `takeLengths`. -/
def takeItems (header : List UInt8) : Nat → Nat → Decoding (List (List Nat) × Nat)
  | 0, offset => pure ([], offset)
  | count + 1, offset => do
    let (n, offset) ← step (take header offset)
    withCapacity 8 n (header.length - offset)
    let (item, offset) ← step (takeAll header n offset)
    let (rest, offset) ← takeItems header count offset
    return (item :: rest, offset)

/-- `decode_nested`, see `decodeNested`; a vector of vectors takes 24 bytes for each. -/
def decodeNestedReserving (decode : Segments → Except ActionError T) (segments : Segments)
    (front : Nat) : Decoding (List T) :=
  match segments with
  | [] => step (.error (.codec "missing batch header"))
  | header :: segments => do
    let (count, offset) ← step (take header front)
    if maxBatchItems < count then step (.error (.codec "batch item limit exceeded"))
    else
      withCapacity 24 count (header.length - offset)
      let (lengths, offset) ← takeItems header count offset
      if offset ≠ header.length then step (.error (.codec "trailing batch header bytes"))
      else
        let expected := (lengths.map List.length).sum
        if u64Bound ≤ expected then step (.error (.codec "segment count overflow"))
        else if segments.length ≠ expected then
          step (.error (.codec "batch segment count mismatch"))
        else step (decodeItems decode lengths segments)

/-- `BatchAction::decode`. -/
def batchActionDecode (input : WireValue A) (segments : Segments) : Decoding (BatchAction A) :=
  match segments.head? with
  | none => step (.error (.codec "missing batch header"))
  | some header => do
    let (start, offset) ← step (take header 0)
    match header[offset]? with
    | none => step (.error (.codec "missing local mode"))
    | some code =>
      let mode ← step (LocalMode.ofCode code)
      let items ← decodeNestedReserving input.decode segments (offset + 1)
      return ⟨start, mode, items⟩

/-- `BatchReply::decode`. -/
def batchReplyDecode (output : WireValue U) (segments : Segments) : Decoding (BatchReply U) :=
  match segments.head? with
  | none => step (.error (.codec "missing reply header"))
  | some header => do
    let (start, offset) ← step (take header 0)
    let values ← decodeNestedReserving (replyWire output).decode segments offset
    return ⟨start, values.map ReplyWire.toItem⟩

theorem takeItems_agrees (header : List UInt8) (count offset : Nat) :
    (takeItems header count offset).Agrees (takeLengths header count offset) := by
  induction count generalizing offset with
  | zero => exact agrees_step _
  | succ count ih =>
    rw [takeItems, takeLengths]
    refine agrees_bind (agrees_step _) fun read => agrees_reserve ?_
    refine agrees_bind (agrees_step _) fun item => ?_
    exact agrees_bind (ih item.2) fun rest => agrees_step _

theorem decodeNestedReserving_agrees (decode : Segments → Except ActionError T)
    (segments : Segments) (front : Nat) :
    (decodeNestedReserving decode segments front).Agrees (decodeNested decode segments front) := by
  cases segments with
  | nil => exact agrees_step _
  | cons header segments =>
    refine agrees_bind (agrees_step _) fun read => ?_
    dsimp only
    split
    · exact agrees_step _
    refine agrees_reserve (agrees_bind (takeItems_agrees header _ _) fun lengths => ?_)
    split
    · exact agrees_step _
    split
    · exact agrees_step _
    split
    · exact agrees_step _
    · exact agrees_step _

/-- Where the decoder returns, it returns what `BatchAction::decode` was said to. -/
theorem batchActionDecode_agrees (input : WireValue A) (segments : Segments) :
    (batchActionDecode input segments).Agrees ((batchActionWire input).decode segments) := by
  unfold batchActionDecode batchActionWire
  dsimp only
  cases segments.head? with
  | none => exact agrees_step _
  | some header =>
    refine agrees_bind (agrees_step _) fun read => ?_
    cases header[read.2]? with
    | none => exact agrees_step _
    | some code =>
      refine agrees_bind (agrees_step _) fun mode => ?_
      exact agrees_bind (decodeNestedReserving_agrees _ _ _) fun items => agrees_step _

theorem batchReplyDecode_agrees (output : WireValue U) (segments : Segments) :
    (batchReplyDecode output segments).Agrees ((batchReplyWire output).decode segments) := by
  unfold batchReplyDecode batchReplyWire
  dsimp only
  cases segments.head? with
  | none => exact agrees_step _
  | some header =>
    refine agrees_bind (agrees_step _) fun read => ?_
    exact agrees_bind (decodeNestedReserving_agrees _ _ _) fun values => agrees_step _

/-! ## Headers that describe what they announce -/

/-- Each number of segments that the header has, from the offset on and for so many values, stands
    in front of as many lengths. -/
def Described (header : List UInt8) : Nat → Nat → Prop
  | 0, _ => True
  | count + 1, offset =>
    offset + 8 ≤ header.length →
      8 * field header offset 8 ≤ header.length - (offset + 8) ∧
        Described header count (offset + 8 + 8 * field header offset 8)

/-- The same of the whole table: unless it is refused at once, the number of values stands in
    front of as many numbers. -/
def TableDescribed (header : List UInt8) (front : Nat) : Prop :=
  front + 8 ≤ header.length → field header front 8 ≤ maxBatchItems →
    8 * field header front 8 ≤ header.length - (front + 8) ∧
      Described header (field header front 8) (front + 8)

/-- A batch whose mode is known has such a table. -/
def ActionDescribed (segments : Segments) : Prop :=
  ∀ header ∈ segments.head?, ∀ mode : LocalMode, header[8]? = some mode.code →
    TableDescribed header 9

/-- A reply has such a table. -/
def ReplyDescribed (segments : Segments) : Prop :=
  ∀ header ∈ segments.head?, TableDescribed header 8

variable {header : List UInt8} {offset count front : Nat} {segments : Segments}

theorem isizeMax_lt : isizeMax + 8 < u64Bound := by decide

/-- In a header that is in memory, a number is read wherever there is room for it. -/
theorem take_fits (hlength : header.length ≤ isizeMax) (hfits : offset + 8 ≤ header.length) :
    take header offset = .ok (field header offset 8, offset + 8) := by
  have hbound := isizeMax_lt
  rw [take, if_neg (by omega), if_neg (by omega)]

theorem take_short (hshort : header.length < offset + 8) :
    ∃ error, take header offset = .error error := by
  unfold take
  split
  · exact ⟨_, rfl⟩
  · exact ⟨_, rfl⟩

/-- As many numbers as there is room for are read. -/
theorem takeAll_fits (hlength : header.length ≤ isizeMax)
    (hfits : offset + 8 * count ≤ header.length) :
    ∃ numbers, takeAll header count offset = .ok (numbers, offset + 8 * count) := by
  induction count generalizing offset with
  | zero => exact ⟨[], rfl⟩
  | succ count ih =>
    have hone : offset + 8 ≤ header.length := by omega
    have hmore : offset + 8 + 8 * count ≤ header.length := by omega
    obtain ⟨rest, hrest⟩ := ih hmore
    refine ⟨field header offset 8 :: rest, ?_⟩
    rw [takeAll, take_fits hlength hone]
    simp only [bind, Except.bind, hrest]
    rw [show offset + 8 + 8 * count = offset + 8 * (count + 1) by omega]
    rfl

/-- The loop over the lengths is safe exactly on what describes itself. -/
theorem takeItems_safe (hlength : header.length ≤ isizeMax) (count offset : Nat) :
    (takeItems header count offset).Safe ↔ Described header count offset := by
  induction count generalizing offset with
  | zero => exact ⟨fun _ => trivial, fun _ => safe_pure _⟩
  | succ count ih =>
    rw [takeItems, Described]
    rcases Nat.lt_or_ge header.length (offset + 8) with hshort | hfits
    · obtain ⟨error, herror⟩ := take_short hshort
      rw [herror, step_error_bind]
      exact ⟨fun _ hroom => absurd hroom (not_le.mpr hshort), fun _ => safe_step _⟩
    · rw [take_fits hlength hfits, step_ok_bind, forall_prop_of_true hfits]
      dsimp only
      rw [safe_bind, safe_withCapacity (by omega)]
      refine and_congr_right fun hroom => ?_
      obtain ⟨item, hitem⟩ := @takeAll_fits header (offset + 8) (field header offset 8) hlength
        (by omega)
      have hresult : (withCapacity 8 (field header offset 8)
          (header.length - (offset + 8))).result = some (.ok ()) :=
        if_neg (by omega)
      simp only [hresult, hitem, step_ok_bind, safe_bind_pure, ih, forall_const]

/-- So is `decode_nested`. -/
theorem decodeNestedReserving_safe (hlength : header.length ≤ isizeMax)
    (decode : Segments → Except ActionError T) :
    (decodeNestedReserving decode (header :: segments) front).Safe ↔ TableDescribed header front := by
  rw [decodeNestedReserving, TableDescribed]
  rcases Nat.lt_or_ge header.length (front + 8) with hshort | hfits
  · obtain ⟨error, herror⟩ := take_short hshort
    rw [herror, step_error_bind]
    exact ⟨fun _ hroom => absurd hroom (not_le.mpr hshort), fun _ => safe_step _⟩
  rw [take_fits hlength hfits, step_ok_bind, forall_prop_of_true hfits]
  dsimp only
  rcases Nat.lt_or_ge maxBatchItems (field header front 8) with hmany | hfew
  · rw [if_pos hmany]
    exact ⟨fun _ hroom => absurd hroom (not_le.mpr hmany), fun _ => safe_step _⟩
  have hsmall : 24 * field header front 8 ≤ isizeMax := by
    have hlimit : 24 * maxBatchItems ≤ isizeMax := by decide
    omega
  rw [if_neg (not_lt.mpr hfew), forall_prop_of_true hfew, safe_bind,
    safe_withCapacity fun _ => hsmall]
  refine and_congr_right fun hroom => ?_
  have hresult : (withCapacity 24 (field header front 8)
      (header.length - (front + 8))).result = some (.ok ()) :=
    if_neg (not_lt.mpr hsmall)
  simp only [hresult, forall_const]
  rw [safe_bind, takeItems_safe hlength]
  refine and_iff_left fun lengths _ => ?_
  -- Nothing more is reserved behind the header.
  split
  · exact safe_step _
  split
  · exact safe_step _
  split
  · exact safe_step _
  · exact safe_step _

/-- So is the decoder of batches. -/
theorem batchActionDecode_safe (input : WireValue A)
    (hmemory : ∀ segment ∈ segments, segment.length ≤ isizeMax) :
    (batchActionDecode input segments).Safe ↔ ActionDescribed segments := by
  unfold batchActionDecode ActionDescribed
  cases segments with
  | nil => simp
  | cons header rest =>
    have hlength := hmemory header List.mem_cons_self
    simp only [List.head?_cons, Option.mem_some_iff, forall_eq']
    rcases Nat.lt_or_ge header.length 8 with hshort | hfits
    · obtain ⟨error, herror⟩ := @take_short header 0 hshort
      rw [herror, step_error_bind, List.getElem?_eq_none (by omega)]
      simp
    rw [take_fits hlength hfits, step_ok_bind]
    dsimp only
    rw [Nat.zero_add]
    cases header[8]? with
    | none => simp
    | some code =>
      dsimp only
      cases hmode : LocalMode.ofCode code with
      | error error =>
        refine ⟨fun _ mode hcode => ?_, fun _ => safe_step _⟩
        rw [Option.some.inj hcode, LocalMode.ofCode_code] at hmode
        cases hmode
      | ok mode =>
        rw [step_ok_bind, safe_bind_pure, decodeNestedReserving_safe hlength]
        constructor
        · exact fun h _ _ => h
        · exact fun h => h mode (by rw [LocalMode.code_ofCode hmode])

/-- So is the decoder of replies. -/
theorem batchReplyDecode_safe (output : WireValue U)
    (hmemory : ∀ segment ∈ segments, segment.length ≤ isizeMax) :
    (batchReplyDecode output segments).Safe ↔ ReplyDescribed segments := by
  unfold batchReplyDecode ReplyDescribed
  cases segments with
  | nil => simp
  | cons header rest =>
    have hlength := hmemory header List.mem_cons_self
    simp only [List.head?_cons, Option.mem_some_iff, forall_eq']
    rcases Nat.lt_or_ge header.length 8 with hshort | hfits
    · obtain ⟨error, herror⟩ := @take_short header 0 hshort
      rw [herror, step_error_bind]
      exact ⟨fun _ hroom => absurd hroom (by omega), fun _ => safe_step _⟩
    rw [take_fits hlength hfits, step_ok_bind]
    dsimp only
    rw [safe_bind_pure, decodeNestedReserving_safe hlength]

/-! ## Everything is consumed -/

/-- Every byte of the header is part of what it says of the values, and every other segment is a
    part of one of them. -/
def Consumed (segments : Segments) (front : Nat) : Prop :=
  ∃ (header : List UInt8) (encoded : List Segments), segments = header :: encoded.flatten ∧
    header = header.take front ++ toLe 8 encoded.length ++ encoded.flatMap itemHeader

/-- A decoder returns, reserves for what the header can describe, and leaves nothing over. -/
structure Decoding.Bounded (decoding : Decoding T) (segments : Segments) (front : Nat) : Prop
    extends decoding.Safe where
  consumed : ∀ value, decoding.result = some (.ok value) → Consumed segments front

theorem decodeNested_consumed {decode : Segments → Except ActionError T} {values : List T}
    (h : decodeNested decode segments front = .ok values) : Consumed segments front := by
  cases segments with
  | nil => cases h
  | cons header rest =>
    obtain ⟨encoded, hvalues, -, -, -, hheader, hflat⟩ := decodeNested_inv h
    rw [hvalues.length_eq] at hheader
    exact ⟨header, encoded, by rw [hflat], hheader.symm⟩

theorem batchAction_consumed {input : WireValue A} {batch : BatchAction A}
    (h : (batchActionWire input).decode segments = .ok batch) : Consumed segments 9 := by
  cases segments with
  | nil => cases h
  | cons header rest =>
    obtain ⟨⟨start, offset⟩, hstart, hmore⟩ := bind_ok h
    dsimp only at hmore
    obtain ⟨-, -, rfl, -⟩ := take_inv hstart
    split at hmore
    · cases hmore
    obtain ⟨mode, -, hlater⟩ := bind_ok hmore
    obtain ⟨items, hitems, -⟩ := bind_ok hlater
    exact decodeNested_consumed hitems

/-- What a decoded reply was made of, and the bounds of its numbers. -/
theorem batchReply_consumed {output : WireValue U} {reply : BatchReply U}
    (h : (batchReplyWire output).decode segments = .ok reply) :
    Consumed segments 8 ∧ reply.start < u64Bound ∧ reply.items.length ≤ maxBatchItems := by
  cases segments with
  | nil => cases h
  | cons header rest =>
    obtain ⟨⟨start, offset⟩, hstart, hmore⟩ := bind_ok h
    obtain ⟨values, hvalues, hdone⟩ := bind_ok hmore
    cases hdone
    obtain ⟨hbound, -, rfl, -⟩ := take_inv hstart
    obtain ⟨-, -, -, hcount, -⟩ := decodeNested_inv hvalues
    exact ⟨decodeNested_consumed hvalues, hbound, by rwa [List.length_map]⟩

/-! ## The indices of a reply -/

/-- The loop over the items of a reply, see `applyItems`, with the addition of `start + offset`;
    `none` is its overflow. -/
def applyItemsAdding : Nat → List (ItemReply U) → List (Option U) → Option (Nat × String) →
    Option (Except AlgorithmError (List (Option U) × Option (Nat × String)))
  | _, [], outputs, firstError => some (.ok (outputs, firstError))
  | index, item :: rest, outputs, firstError =>
    if u64Bound ≤ index then none
    else
      match item with
      | .ok value =>
        match outputs[index]? with
        | some none => applyItemsAdding (index + 1) rest (outputs.set index (some value)) firstError
        | _ => some (.error (.protocol "invalid batch result index"))
      | .err message =>
        match firstError with
        | none => applyItemsAdding (index + 1) rest outputs (some (index, message))
        | some (old, text) =>
          if index < old then applyItemsAdding (index + 1) rest outputs (some (index, message))
          else applyItemsAdding (index + 1) rest outputs (some (old, text))

/-- Every index of the reply is a number of 64 bits, or the loop ends before the first that is
    not, at an item whose value there is no place for. -/
def IndicesFit (start : Nat) (items : List (ItemReply U)) : Prop :=
  start + items.length ≤ u64Bound ∨ ∃ value, .ok value ∈ items.take (u64Bound - start)

variable {index : Nat} {items : List (ItemReply U)} {outputs : List (Option U)}
  {firstError : Option (Nat × String)}

/-- Without an overflow the loop is the one of the controller. -/
theorem applyItemsAdding_eq (h : applyItemsAdding index items outputs firstError ≠ none) :
    applyItemsAdding index items outputs firstError =
      some (applyItems index items outputs firstError) := by
  induction items generalizing index outputs firstError with
  | nil => rfl
  | cons item items ih =>
    unfold applyItemsAdding at h ⊢
    split at h
    · exact absurd rfl h
    next hindex =>
    rw [if_neg hindex]
    cases item with
    | ok value =>
      rw [applyItems]
      dsimp only at h ⊢
      generalize outputs[index]? = found at h ⊢
      rcases found with _ | _ | other
      · rfl
      · exact ih h
      · rfl
    | err message =>
      cases firstError with
      | none => exact ih h
      | some first =>
        rw [applyItems]
        dsimp only at h ⊢
        split
        next hearlier =>
          rw [if_pos hearlier] at h
          exact ih h
        next hlater =>
          rw [if_neg hlater] at h
          exact ih h

theorem applyItemsAdding_fits (h : index + items.length ≤ u64Bound) :
    applyItemsAdding index items outputs firstError ≠ none := by
  induction items generalizing index outputs firstError with
  | nil => simp [applyItemsAdding]
  | cons item items ih =>
    rw [List.length_cons] at h
    have hnext : index + 1 + items.length ≤ u64Bound := by omega
    unfold applyItemsAdding
    rw [if_neg (by omega)]
    cases item with
    | ok value =>
      dsimp only
      split
      · exact ih hnext
      · simp
    | err message =>
      cases firstError with
      | none => exact ih hnext
      | some first =>
        dsimp only
        split
        · exact ih hnext
        · exact ih hnext

/-- Past the last place of the outputs, a value ends the loop, and only a value does. -/
theorem applyItemsAdding_overflows (hplaces : outputs.length ≤ index) (hindex : index ≤ u64Bound)
    (hover : u64Bound < index + items.length) :
    applyItemsAdding index items outputs firstError ≠ none ↔
      ∃ value, .ok value ∈ items.take (u64Bound - index) := by
  induction items generalizing index outputs firstError with
  | nil => exact absurd hover (by simpa using hindex)
  | cons item items ih =>
    rw [List.length_cons] at hover
    unfold applyItemsAdding
    rcases Nat.eq_or_lt_of_le hindex with rfl | hsmall
    · simp
    obtain ⟨room, hroom⟩ : ∃ room, u64Bound - index = room + 1 := ⟨u64Bound - index - 1, by omega⟩
    have hrest : u64Bound - (index + 1) = room := by omega
    have hnext := fun firstError =>
      @ih (index + 1) outputs firstError (by omega) hsmall (by omega)
    rw [if_neg (by omega), hroom, List.take_succ_cons]
    cases item with
    | ok value =>
      dsimp only
      rw [List.getElem?_eq_none hplaces]
      simp
    | err message =>
      simp only [hrest] at hnext
      simp only [List.mem_cons, reduceCtorEq, false_or]
      cases firstError with
      | none => exact hnext _
      | some first =>
        dsimp only
        split
        · exact hnext _
        · exact hnext _

/-- Of a reply with as many items as a batch may have, and outputs that are in memory. -/
theorem applyItemsAdding_iff {reply : BatchReply U} (hstart : reply.start < u64Bound)
    (hcount : reply.items.length ≤ maxBatchItems) (houtputs : outputs.length ≤ isizeMax) :
    applyItemsAdding reply.start reply.items outputs firstError ≠ none ↔
      IndicesFit reply.start reply.items := by
  unfold IndicesFit
  rcases Nat.lt_or_ge u64Bound (reply.start + reply.items.length) with hover | hfits
  · have hlimit : isizeMax + maxBatchItems ≤ u64Bound := by decide
    rw [applyItemsAdding_overflows (by omega) hstart.le hover, or_iff_right (not_le.mpr hover)]
  · exact ⟨fun _ => .inl hfits, fun _ => applyItemsAdding_fits hfits⟩

/-! ## Hostile headers -/

/-- A batch of one value of 2^64 - 1 segments. -/
def hostileBatch : Segments := [toLe 8 0 ++ [0] ++ toLe 8 1 ++ toLe 8 18446744073709551615]

/-- The same as a reply. -/
def hostileReply : Segments := [toLe 8 0 ++ toLe 8 1 ++ toLe 8 18446744073709551615]

/-- A reply of two errors, the second of which has no index. -/
def lastReply : Segments :=
  [toLe 8 18446744073709551615 ++ toLe 8 2 ++ (toLe 8 2 ++ toLe 8 1 ++ toLe 8 0) ++
    (toLe 8 2 ++ toLe 8 1 ++ toLe 8 0), [1], [], [1], []]

/-- The decoders panic on the headers of one value, and a reply that they accept overflows. -/
theorem hostile_headers :
    ¬(batchActionDecode u64Wire hostileBatch).Bounded hostileBatch 9 ∧
    ¬(batchReplyDecode u64Wire hostileReply).Bounded hostileReply 8 ∧
    ∃ reply, (batchReplyDecode u64Wire lastReply).result = some (.ok reply) ∧
      applyItemsAdding reply.start reply.items [none] none = none := by
  refine ⟨fun h => h.returns (by decide), fun h => h.returns (by decide),
    ⟨18446744073709551615, [.err "", .err ""]⟩, ?_, by decide⟩
  rfl

/-- The decoders are total, bounded and use everything exactly on the headers that describe what
    they announce, and the indices of a decoded reply are exactly those that fit. -/
theorem batch_decode_bounded_iff (input : WireValue A) (output : WireValue U) (segments : Segments)
    (hmemory : ∀ segment ∈ segments, segment.length ≤ isizeMax) :
    ((batchActionDecode input segments).Bounded segments 9 ↔ ActionDescribed segments) ∧
    ((batchReplyDecode output segments).Bounded segments 8 ↔ ReplyDescribed segments) ∧
    ∀ reply, (batchReplyDecode output segments).result = some (.ok reply) →
      ∀ (outputs : List (Option U)) (firstError : Option (Nat × String)),
        outputs.length ≤ isizeMax →
        (applyItemsAdding reply.start reply.items outputs firstError ≠ none ↔
          IndicesFit reply.start reply.items) := by
  have hplain : ∀ reply, (batchReplyDecode output segments).result = some (.ok reply) →
      (batchReplyWire output).decode segments = .ok reply := by
    intro reply hreply
    have hsame := batchReplyDecode_agrees output segments (by rw [hreply]; exact nofun)
    exact (Option.some.inj (hreply.symm.trans hsame)).symm
  refine ⟨⟨fun h => (batchActionDecode_safe input hmemory).mp h.toSafe, fun h => ?_⟩,
    ⟨fun h => (batchReplyDecode_safe output hmemory).mp h.toSafe, fun h => ?_⟩,
    fun reply hreply outputs firstError houtputs => ?_⟩
  · refine ⟨(batchActionDecode_safe input hmemory).mpr h, fun batch hbatch => ?_⟩
    have hsame := batchActionDecode_agrees input segments (by rw [hbatch]; exact nofun)
    exact batchAction_consumed (Option.some.inj (hbatch.symm.trans hsame)).symm
  · refine ⟨(batchReplyDecode_safe output hmemory).mpr h, fun reply hreply => ?_⟩
    exact (batchReply_consumed (hplain reply hreply)).1
  · obtain ⟨-, hstart, hcount⟩ := batchReply_consumed (hplain reply hreply)
    exact applyItemsAdding_iff hstart hcount houtputs

/-- The batch of one number, encoded, is one that describes itself. -/
theorem batch_decode_bounded_one :
    ∃ header, (batchActionWire u64Wire).encode oneItem = .ok [header, toLe 8 7] ∧
      (batchActionDecode u64Wire [header, toLe 8 7]).Bounded [header, toLe 8 7] 9 := by
  refine ⟨toLe 8 0 ++ [0] ++ toLe 8 1 ++ toLe 8 1 ++ toLe 8 8, rfl, ?_⟩
  refine (batch_decode_bounded_iff u64Wire u64Wire _ (by decide)).1.mpr ?_
  rintro _ ⟨⟩ mode _ _ _
  exact ⟨by decide, fun _ => ⟨by decide, trivial⟩⟩

end Hataori.Algorithms
