import Hataori.Placement.Transfers

/-!
# The phases of a placement collective

What every rank has to send is a value for each destination. A rank fails in the encoding
phase with the first value it cannot encode, and in the decoding phase with the first one
it cannot decode; the transfers of the three operations meet this description.
-/

namespace Hataori.Placement

open Lib.Ranks Lib.Confluence Hataori.Pmap

variable {n : Nat} {T α β ε γ : Type}

/-! ## Loops over the ranks -/

/-- The failure of an attempt. -/
def failed : Except Failure α → Option Failure
  | .ok _ => none
  | .error failure => some failure

theorem failed_eq_none {attempt : Except Failure α} (h : failed attempt = none) :
    ∃ value, attempt = .ok value := by
  cases attempt with
  | ok value => exact ⟨value, rfl⟩
  | error failure => cases h

theorem foldl_record_fst (attempt : Fin n → Except Failure α) (ranks : List (Fin n))
    (state : Option Failure × (Fin n → Option α)) :
    (ranks.foldl (record attempt) state).1 =
      state.1.or (ranks.findSome? fun rank => failed (attempt rank)) := by
  induction ranks generalizing state with
  | nil => simp
  | cons rank rest ih =>
    rw [List.foldl_cons, ih, List.findSome?_cons]
    cases hattempt : attempt rank with
    | ok value => simp [record, hattempt, failed]
    | error failure =>
      cases hstate : state.1 with
      | none => simp [record, hattempt, failed, recordFailure, hstate]
      | some found => simp [record, hattempt, recordFailure, hstate]

/-- A value that is there stays, and those of the attempts that succeed are kept. -/
theorem foldl_record_snd {attempt : Fin n → Except Failure α} {value : α} {rank : Fin n}
    (ranks : List (Fin n)) (state : Option Failure × (Fin n → Option α))
    (h : state.2 rank = some value ∧ rank ∉ ranks ∨ rank ∈ ranks ∧ attempt rank = .ok value) :
    (ranks.foldl (record attempt) state).2 rank = some value := by
  induction ranks using List.reverseRecOn with
  | nil => simpa using h
  | append_singleton rest last ih =>
    rw [List.foldl_append, List.foldl_cons, List.foldl_nil]
    by_cases hlast : rank = last
    · subst hlast
      have hattempt : attempt rank = .ok value := by
        rcases h with ⟨-, hout⟩ | ⟨-, hattempt⟩
        · exact absurd (by simp) hout
        · exact hattempt
      simp [record, hattempt]
    · have hkept : ∀ before : Option Failure × (Fin n → Option α),
          (record attempt before last).2 rank = before.2 rank := by
        intro before
        unfold record
        split
        · exact Function.update_of_ne hlast _ _
        · rfl
      rw [hkept]
      apply ih
      rcases h with ⟨hstate, hout⟩ | ⟨hmem, hattempt⟩
      · exact .inl ⟨hstate, fun hin => hout (List.mem_append_left _ hin)⟩
      · exact .inr ⟨(List.mem_append.mp hmem).resolve_right (by simpa using hlast), hattempt⟩

theorem findSome?_filter (ranks : List (Fin n)) (keep : Fin n → Bool) (f : Fin n → Option α) :
    (ranks.filter keep).findSome? f =
      ranks.findSome? fun rank => if keep rank then f rank else none := by
  induction ranks with
  | nil => rfl
  | cons rank rest ih =>
    cases hkeep : keep rank with
    | false => simp [hkeep, ih]
    | true => simp [List.findSome?_cons, hkeep, ih]

/-- The ranks that have something have the same. -/
theorem findSome?_same {found : Option α} {f : Fin n → Option α} (hsome : ∃ rank, f rank = found)
    (hall : ∀ rank, f rank = none ∨ f rank = found) : (List.finRange n).findSome? f = found := by
  obtain ⟨rank, hrank⟩ := hsome
  cases hfirst : (List.finRange n).findSome? f with
  | none =>
    rw [List.findSome?_eq_none_iff] at hfirst
    rw [← hrank, hfirst rank (List.mem_finRange rank)]
  | some first =>
    obtain ⟨other, -, hother⟩ := List.exists_of_findSome?_eq_some hfirst
    rcases hall other with hnone | hsame
    · rw [hnone] at hother
      cases hother
    · rw [← hother, hsame]

/-- Only one rank has something. -/
theorem findSome?_only (rank : Fin n) {f : Fin n → Option α}
    (h : ∀ other, other ≠ rank → f other = none) : (List.finRange n).findSome? f = f rank := by
  refine findSome?_same ⟨rank, rfl⟩ fun other => ?_
  by_cases hother : other = rank
  · exact .inr (by rw [hother])
  · exact .inl (h other hother)

/-! ## What is sent and what fails -/

/-- The root of a call. -/
def Call.root : Call T → Int
  | .broadcast root _ => root
  | .scatter root _ => root
  | .gather root _ => root

/-- The value a rank has for another. -/
def Caller.outgoing (caller : Caller T) (rank destination : Fin n) : Option T :=
  match caller.call with
  | .broadcast root rootValue =>
    if (rank.val : Int) = root ∧ destination ≠ rank then rootValue else none
  | .scatter root rootShards =>
    if (rank.val : Int) = root ∧ destination ≠ rank then
      rootShards.bind fun shards => shards[destination.val]?
    else none
  | .gather root value =>
    if (destination.val : Int) = root ∧ rank ≠ destination then some value else none

/-- The first value of a rank that it cannot encode. -/
def encodeFailures (callers : Fin n → Caller T) (rank : Fin n) : Option Failure :=
  (List.finRange n).findSome? fun destination =>
    ((callers rank).outgoing rank destination).bind fun value =>
      failed (encode (callers rank).codec value)

/-- The failure of a rank on the value another has for it. -/
def decodeFailure (callers : Fin n → Caller T) (rank source : Fin n) : Option Failure :=
  ((callers source).outgoing source rank).bind fun value =>
    match encode (callers source).codec value with
    | .ok bytes => failed (wireFailure (decodePayload (callers rank).codec bytes))
    | .error _ => none

/-- The first value for a rank that it cannot decode. -/
def decodeFailures (callers : Fin n → Caller T) (rank : Fin n) : Option Failure :=
  (List.finRange n).findSome? (decodeFailure callers rank)

theorem encode_ok {codec : Codec T} {value : T} {bytes : List UInt8}
    (h : encode codec value = .ok bytes) :
    codec.serialize value = .ok bytes ∧ bytes.length ≤ maxWireBytes := by
  unfold encode encodePayload at h
  cases hserialize : codec.serialize value with
  | error error => simp [hserialize] at h
  | ok found =>
    by_cases hlength : found.length ≤ maxWireBytes
    · simp [hserialize, validatePayloadLen, hlength, Except.map] at h
      subst h
      exact ⟨rfl, hlength⟩
    · simp [hserialize, validatePayloadLen, hlength, Except.map] at h

/-- The codecs of the ranks read a value as it was written, if they read it at all. -/
def RoundTrip (callers : Fin n → Caller T) : Prop :=
  ∀ sender receiver value bytes found used,
    (callers sender).codec.serialize value = .ok bytes →
    (callers receiver).codec.deserialize bytes = .ok (found, used) → found = value

theorem decode_ok {callers : Fin n → Caller T} {sender receiver : Fin n} {value found : T}
    {bytes : List UInt8} (hround : RoundTrip callers)
    (hencode : encode (callers sender).codec value = .ok bytes)
    (hdecode : wireFailure (decodePayload (callers receiver).codec bytes) = .ok found) :
    found = value := by
  obtain ⟨hserialize, hlength⟩ := encode_ok hencode
  unfold decodePayload at hdecode
  rw [validatePayloadLen_of_le hlength] at hdecode
  simp only [bind, Except.bind] at hdecode
  cases hread : (callers receiver).codec.deserialize bytes with
  | error error =>
    rw [hread] at hdecode
    simp [wireFailure, throw, throwThe, MonadExceptOf.throw] at hdecode
  | ok pair =>
    obtain ⟨read, used⟩ := pair
    rw [hread] at hdecode
    have hread' := hround sender receiver value bytes read used hserialize hread
    dsimp only at hdecode
    split at hdecode
    · simp [wireFailure, throw, throwThe, MonadExceptOf.throw] at hdecode
    · simp only [wireFailure, pure, Except.pure, Except.ok.injEq] at hdecode
      rw [← hdecode, hread']

end Hataori.Placement
