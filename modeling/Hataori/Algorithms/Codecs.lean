import Hataori.Algorithms.Wire

/-!
# The codecs of batches and replies, in both directions

The round trips of `hataori-algorithms/src/batch.rs`, what is left of an error text, and the
converse: a segment list that is accepted is the one that its value encodes to, if the codec of
the items is of that kind.
-/

namespace Hataori.Algorithms

open Hataori.Runtime Hataori.Transport Lib.Bytes

variable {A U T : Type} {header : List UInt8} {offset value next count : Nat}
  {encode : T → Except ActionError Segments} {decode : Segments → Except ActionError T}
  {values : List T} {encoded : List Segments}

/-! ## What was read stands in the header -/

/-- What the header says of a value with segments of these lengths. -/
def lengthsHeader (item : List Nat) : List UInt8 := toLe 8 item.length ++ item.flatMap (toLe 8)

theorem itemHeader_eq (segments : Segments) :
    itemHeader segments = lengthsHeader (segments.map List.length) := by
  simp [itemHeader, lengthsHeader]

theorem take_inv (h : take header offset = .ok (value, next)) :
    value < u64Bound ∧ offset + 8 ≤ header.length ∧ next = offset + 8 ∧
      header.take next = header.take offset ++ toLe 8 value := by
  unfold take at h
  split at h
  · cases h
  split at h
  · cases h
  next hlength =>
  cases h
  have hfits : offset + 8 ≤ header.length := not_lt.mp hlength
  have hslice := length_slice hfits
  refine ⟨?_, hfits, rfl, ?_⟩
  · have hlt := ofLe_lt (slice header offset 8)
    rwa [hslice] at hlt
  · have hsame := toLe_ofLe (slice header offset 8)
    rw [hslice] at hsame
    rw [field, hsame, List.take_add]
    rfl

theorem takeAll_inv {numbers : List Nat} (h : takeAll header count offset = .ok (numbers, next)) :
    numbers.length = count ∧ (∀ number ∈ numbers, number < u64Bound) ∧
      header.take next = header.take offset ++ numbers.flatMap (toLe 8) := by
  induction count generalizing offset numbers with
  | zero =>
    cases h
    simp
  | succ count ih =>
    obtain ⟨⟨number, mid⟩, hnumber, hmore⟩ := bind_ok h
    obtain ⟨⟨rest, last⟩, hrest, hdone⟩ := bind_ok hmore
    cases hdone
    obtain ⟨hlt, -, -, hfront⟩ := take_inv hnumber
    obtain ⟨hlength, hall, hback⟩ := ih hrest
    refine ⟨by rw [List.length_cons, hlength], List.forall_mem_cons.mpr ⟨hlt, hall⟩, ?_⟩
    rw [hback, hfront, List.flatMap_cons, List.append_assoc]

theorem takeLengths_inv {lengths : List (List Nat)}
    (h : takeLengths header count offset = .ok (lengths, next)) :
    lengths.length = count ∧
      (∀ item ∈ lengths, item.length < u64Bound ∧ ∀ number ∈ item, number < u64Bound) ∧
      header.take next = header.take offset ++ lengths.flatMap lengthsHeader := by
  induction count generalizing offset lengths with
  | zero =>
    cases h
    simp
  | succ count ih =>
    obtain ⟨⟨size, mid⟩, hsize, hmore⟩ := bind_ok h
    obtain ⟨⟨item, last⟩, hitem, hlater⟩ := bind_ok hmore
    obtain ⟨⟨rest, finish⟩, hrest, hdone⟩ := bind_ok hlater
    cases hdone
    obtain ⟨hlt, -, -, hfront⟩ := take_inv hsize
    obtain ⟨rfl, hnumbers, hmiddle⟩ := takeAll_inv hitem
    obtain ⟨hlength, hall, hback⟩ := ih hrest
    refine ⟨by rw [List.length_cons, hlength],
      List.forall_mem_cons.mpr ⟨⟨hlt, hnumbers⟩, hall⟩, ?_⟩
    rw [hback, hmiddle, hfront, List.flatMap_cons, lengthsHeader]
    simp only [List.append_assoc]

/-- The values are those of the segments, cut at the lengths. -/
theorem decodeItems_inv {lengths : List (List Nat)} {source : Segments}
    (hsource : source.length = (lengths.map List.length).sum)
    (h : decodeItems decode lengths source = .ok values) :
    ∃ encoded : List Segments,
      List.Forall₂ (fun value segments => decode segments = .ok value) values encoded ∧
      encoded.map (fun segments => segments.map List.length) = lengths ∧
      encoded.flatten = source := by
  induction lengths generalizing source values with
  | nil =>
    cases h
    exact ⟨[], .nil, rfl, (List.length_eq_zero_iff.mp hsource).symm⟩
  | cons item lengths ih =>
    rw [decodeItems] at h
    split at h
    · cases h
    next hitem =>
    obtain ⟨value, hvalue, hmore⟩ := bind_ok h
    obtain ⟨rest, hrest, hdone⟩ := bind_ok hmore
    cases hdone
    rw [List.map_cons, List.sum_cons] at hsource
    obtain ⟨encoded, hall, hlengths, hflat⟩ :=
      ih (by rw [List.length_drop]; omega) hrest
    refine ⟨source.take item.length :: encoded, .cons hvalue hall, ?_, ?_⟩
    · rw [List.map_cons, hlengths, not_not.mp hitem]
    · rw [List.flatten_cons, hflat, List.take_append_drop]

/-- What is accepted: the header says of every value what its segments are, and there are no
    other segments. -/
theorem decodeNested_inv {segments : Segments} {front : Nat}
    (h : decodeNested decode (header :: segments) front = .ok values) :
    ∃ encoded : List Segments,
      List.Forall₂ (fun value segments => decode segments = .ok value) values encoded ∧
      (∀ segments ∈ encoded, InMemory segments) ∧ values.length ≤ maxBatchItems ∧
      front + 8 ≤ header.length ∧
      header.take front ++ toLe 8 values.length ++ encoded.flatMap itemHeader = header ∧
      encoded.flatten = segments := by
  rw [decodeNested] at h
  obtain ⟨⟨count, start⟩, hcount, hmore⟩ := bind_ok h
  dsimp only at hmore
  split at hmore
  · cases hmore
  next hlimit =>
  obtain ⟨⟨lengths, last⟩, hlengths, hlater⟩ := bind_ok hmore
  dsimp only at hlater
  split at hlater
  · cases hlater
  next hend =>
  split at hlater
  · cases hlater
  split at hlater
  · cases hlater
  next hsum =>
  obtain ⟨-, hfits, -, hfront⟩ := take_inv hcount
  obtain ⟨hlength, hall, hback⟩ := takeLengths_inv hlengths
  obtain ⟨encoded, hvalues, hmap, hflat⟩ := decodeItems_inv (not_not.mp hsum) hlater
  have hsame : values.length = count := by
    rw [hvalues.length_eq, ← hlength, ← hmap, List.length_map]
  refine ⟨encoded, hvalues, fun item hitem => ?_, hsame ▸ not_lt.mp hlimit, hfits, ?_, hflat⟩
  · have hnumbers := hall (item.map List.length) (hmap ▸ List.mem_map.mpr ⟨item, hitem, rfl⟩)
    rw [List.length_map] at hnumbers
    exact ⟨hnumbers.1, fun segment hsegment =>
      hnumbers.2 segment.length (List.mem_map.mpr ⟨segment, hsegment, rfl⟩)⟩
  · rw [hfront, not_not.mp hend, List.take_length, ← hmap, List.flatMap_map] at hback
    rw [hsame, show itemHeader = _ from funext itemHeader_eq]
    exact hback.symm

/-! ## What is accepted is what is encoded -/

/-- A segment list that is accepted is the one its value encodes to. -/
def WireValue.Canonical (wire : WireValue T) : Prop :=
  ∀ segments value, wire.decode segments = .ok value → wire.encode value = .ok segments

theorem nested_canonical {wire : WireValue T} (hcanonical : wire.Canonical) {segments : Segments}
    {front : Nat} (h : decodeNested wire.decode (header :: segments) front = .ok values) :
    encodeNested wire.encode values (header.take front) = .ok (header :: segments) := by
  obtain ⟨encoded, hvalues, hmemory, hcount, -, hheader, hflat⟩ := decodeNested_inv h
  have hbound : values.length < u64Bound := hcount.trans_lt (by decide)
  have hcarried : List.Forall₂ (Carried wire.encode wire.decode) values encoded := by
    clear hheader hflat hcount hbound h
    induction hvalues with
    | nil => exact .nil
    | cons hvalue _ ih =>
      exact .cons ⟨hcanonical _ _ hvalue, hvalue, hmemory _ List.mem_cons_self⟩
        (ih fun other hother => hmemory other (List.mem_cons_of_mem _ hother))
  rw [encodeNested, if_neg (not_lt.mpr hcount), put_ok hbound]
  simp only [bind, Except.bind]
  rw [encodeItems_ok hcarried, hheader, hflat, List.nil_append]

theorem LocalMode.code_ofCode {code : UInt8} {mode : LocalMode}
    (h : LocalMode.ofCode code = .ok mode) : mode.code = code := by
  unfold LocalMode.ofCode at h
  split at h
  next hcode => cases h; exact hcode.symm
  split at h
  next hcode => cases h; exact hcode.symm
  split at h
  next hcode => cases h; exact hcode.symm
  cases h

/-- A batch that is accepted encodes to what was accepted. -/
theorem batchAction_canonical {input : WireValue A} (hinput : input.Canonical) :
    (batchActionWire input).Canonical := by
  intro payload batch h
  cases payload with
  | nil => cases h
  | cons header segments =>
    obtain ⟨⟨start, offset⟩, hstart, hmore⟩ := bind_ok h
    dsimp only at hmore
    obtain ⟨hbound, hfits, rfl, hfront⟩ := take_inv hstart
    split at hmore
    · cases hmore
    next code hcode =>
    obtain ⟨mode, hmode, hlater⟩ := bind_ok hmore
    obtain ⟨items, hitems, hdone⟩ := bind_ok hlater
    cases hdone
    have hhead : header.take (0 + 8 + 1) = toLe 8 start ++ [mode.code] := by
      rw [List.take_add_one, hfront, hcode, LocalMode.code_ofCode hmode]
      rfl
    have hnested := nested_canonical hinput hitems
    rw [hhead] at hnested
    rw [← hnested]
    unfold batchActionWire
    simp only [bind, Except.bind]
    rw [put_ok hbound]
    rfl

/-- The same of an item of a reply, whose text is then short enough to stay as it is. -/
theorem replyWire_canonical {output : WireValue U} (houtput : output.Canonical)
    {segments : Segments} {reply : ReplyWire U} (h : (replyWire output).decode segments = .ok reply) :
    (replyWire output).encode reply = .ok segments ∧ reply.toItem.toWire = reply := by
  cases segments with
  | nil => cases h
  | cons tag segments =>
    unfold replyWire at h
    dsimp only at h
    split at h
    next htag =>
      obtain ⟨value, hvalue, hdone⟩ := bind_ok h
      cases hdone
      simp only [replyWire, houtput _ _ hvalue, htag]
      exact ⟨rfl, rfl⟩
    split at h
    next htag =>
      split at h
      next text =>
        split at h
        · cases h
        next hshort =>
        split at h
        · cases h
        next message htext =>
        cases h
        have hbytes := ofText_toText htext
        have hkept : carriedText message = message := by
          rw [carriedText_eq_iff, ← length_ofText, hbytes]
          exact not_lt.mp hshort
        simp only [replyWire, ReplyWire.toItem, ItemReply.toWire, hbytes, htag, hkept, and_self]
      · cases h
    · cases h

theorem toWire_toItem {output : WireValue U} (houtput : output.Canonical)
    {values : List (ReplyWire U)}
    (h : List.Forall₂ (fun value segments => (replyWire output).decode segments = .ok value)
      values encoded) :
    (values.map ReplyWire.toItem).map ItemReply.toWire = values := by
  induction h with
  | nil => rfl
  | cons hvalue _ ih =>
    rw [List.map_cons, List.map_cons, ih, (replyWire_canonical houtput hvalue).2]

/-- A reply that is accepted encodes to what was accepted. -/
theorem batchReply_canonical {output : WireValue U} (houtput : output.Canonical) :
    (batchReplyWire output).Canonical := by
  intro payload reply h
  cases payload with
  | nil => cases h
  | cons header segments =>
    obtain ⟨⟨start, offset⟩, hstart, hmore⟩ := bind_ok h
    obtain ⟨values, hvalues, hdone⟩ := bind_ok hmore
    cases hdone
    obtain ⟨hbound, -, rfl, hfront⟩ := take_inv hstart
    obtain ⟨encoded, hall, -⟩ := decodeNested_inv hvalues
    have hnested := nested_canonical (fun _ _ hvalue => (replyWire_canonical houtput hvalue).1) hvalues
    rw [hfront, List.take_zero, List.nil_append] at hnested
    rw [← hnested]
    unfold batchReplyWire
    simp only [bind, Except.bind, toWire_toItem houtput hall]
    rw [put_ok hbound]
    rfl

/-! ## What is left of an error text -/

/-- `carried` is the longest front of the text, in whole characters, that fits. -/
structure LongestFitting (message carried : String) : Prop where
  front : carried.toList <+: message.toList
  fits : carried.utf8ByteSize ≤ BatchReply.maxErrorBytes
  longest : ∀ other : String, other.toList <+: message.toList →
    other.utf8ByteSize ≤ BatchReply.maxErrorBytes → other.toList <+: carried.toList

/-- What the loop leaves of the characters, the last one first. -/
theorem popOver_longest {text other : List Char} (hother : other <:+ text)
    (hfits : (String.ofList other.reverse).utf8ByteSize ≤ BatchReply.maxErrorBytes) :
    other <:+ popOver text := by
  induction text with
  | nil => exact hother
  | cons last front ih =>
    rw [popOver]
    split
    · exact hother
    next hlarge =>
    rcases List.suffix_cons_iff.mp hother with rfl | hshorter
    · exact absurd hfits hlarge
    · exact ih hshorter

theorem popOver_suffix (text : List Char) : popOver text <:+ text := by
  induction text with
  | nil => exact List.suffix_rfl
  | cons last front ih =>
    rw [popOver]
    split
    · exact List.suffix_rfl
    · exact ih.trans (List.suffix_cons last front)

theorem carriedText_longest (message : String) : LongestFitting message (carriedText message) where
  front := by
    rw [carriedText, String.toList_ofList, ← List.reverse_suffix, List.reverse_reverse]
    exact popOver_suffix _
  fits := utf8ByteSize_carriedText message
  longest := by
    intro other hother hfits
    rw [carriedText, String.toList_ofList, ← List.reverse_suffix, List.reverse_reverse]
    refine popOver_longest (List.reverse_suffix.mpr hother) ?_
    rwa [List.reverse_reverse, String.ofList_toList]

/-- What arrives of an item of a reply. -/
inductive Arrives : ItemReply U → ItemReply U → Prop
  | ok (value : U) : Arrives (.ok value) (.ok value)
  | err {message carried : String} (h : LongestFitting message carried) :
    Arrives (.err message) (.err carried)

theorem carriedReply_arrives (items : List (ItemReply U)) :
    List.Forall₂ Arrives items (items.map fun item => item.toWire.toItem) := by
  induction items with
  | nil => exact .nil
  | cons item items ih =>
    refine .cons ?_ ih
    cases item with
    | ok value => exact .ok value
    | err message => exact .err (carriedText_longest message)

/-! ## Both directions -/

/-- A batch comes back as it was, and a reply with its error texts cut to what fits; and where the
    codec of the items is canonical, what is accepted of either is what its value encodes to. -/
theorem batch_codecs (input : WireValue A) (output : WireValue U) :
    (input.RoundTrips → ∀ batch : BatchAction A, batch.start < u64Bound →
      batch.items.length ≤ maxBatchItems →
      ∃ payload, (batchActionWire input).encode batch = .ok payload ∧
        (InMemory payload → (batchActionWire input).decode payload = .ok batch)) ∧
    (output.RoundTrips → ∀ reply : BatchReply U, reply.start < u64Bound →
      reply.items.length ≤ maxBatchItems →
      ∃ payload, (batchReplyWire output).encode reply = .ok payload ∧
        (InMemory payload → ∃ carried : BatchReply U,
          (batchReplyWire output).decode payload = .ok carried ∧ carried.start = reply.start ∧
          List.Forall₂ Arrives reply.items carried.items)) ∧
    (input.Canonical → (batchActionWire input).Canonical) ∧
    (output.Canonical → (batchReplyWire output).Canonical) := by
  refine ⟨fun hinput batch hstart hcount => batchAction_roundTrip hinput hstart hcount,
    fun houtput reply hstart hcount => ?_, batchAction_canonical, batchReply_canonical⟩
  obtain ⟨payload, hencode, hdecode⟩ := batchReply_roundTrip houtput hstart hcount
  exact ⟨payload, hencode, fun hmemory =>
    ⟨carriedReply reply, hdecode hmemory, rfl, carriedReply_arrives reply.items⟩⟩

theorem u64Wire_canonical : u64Wire.Canonical := by
  intro segments value h
  unfold u64Wire at h
  dsimp only at h
  split at h
  next bytes =>
    split at h
    next hlength =>
      cases h
      have hbytes := ofLe_lt bytes
      have hsame := toLe_ofLe bytes
      rw [hlength] at hbytes hsame
      simp only [u64Wire, UInt64.toNat_ofNat_of_lt' hbytes, hsame]
    · cases h
  · cases h

/-- The codecs for numbers: the batch of one number comes back, and so does the reply with one
    number and one short text. -/
theorem batch_codecs_numbers :
    u64Wire.RoundTrips ∧ u64Wire.Canonical ∧
    (∃ payload, (batchActionWire u64Wire).encode oneItem = .ok payload ∧
      (InMemory payload → (batchActionWire u64Wire).decode payload = .ok oneItem)) ∧
    (∃ payload, (batchReplyWire u64Wire).encode ⟨3, [.ok 5, .err "odd"]⟩ = .ok payload ∧
      (InMemory payload → ∃ carried : BatchReply UInt64,
        (batchReplyWire u64Wire).decode payload = .ok carried ∧ carried.start = 3 ∧
        List.Forall₂ Arrives [.ok 5, .err "odd"] carried.items)) ∧
    (batchActionWire u64Wire).Canonical ∧ (batchReplyWire u64Wire).Canonical := by
  obtain ⟨haction, hreply, hinput, houtput⟩ := batch_codecs u64Wire u64Wire
  refine ⟨u64Wire_roundTrips, u64Wire_canonical, ?_, ?_, hinput u64Wire_canonical,
    houtput u64Wire_canonical⟩
  · exact haction u64Wire_roundTrips oneItem (by decide) (by decide)
  · exact hreply u64Wire_roundTrips ⟨3, [.ok 5, .err "odd"]⟩ (by decide) (by decide)

end Hataori.Algorithms
