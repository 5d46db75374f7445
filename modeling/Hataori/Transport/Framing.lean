import Hataori.Transport.Tcp

/-!
# Frames on a byte stream

What the reader of a stream makes of whole and partial frames. A frame is the
encoded parcel behind its length; the reader takes frames off the front of its
buffer and leaves a partial one where it is.
-/

namespace Hataori.Transport

open Hataori.Runtime Lib.Bytes

/-- The bytes of a parcel on a stream. -/
def wireFrame (parcel : Parcel) : List UInt8 :=
  toLe lengthBytes (parcelBytes parcel).length ++ parcelBytes parcel

@[simp] theorem length_wireFrame (parcel : Parcel) :
    (wireFrame parcel).length = lengthBytes + parcel.frame := by
  rw [wireFrame, List.length_append, length_toLe, length_parcelBytes]

theorem encodeSubmission_ok {submission : Submission} {limits : ProtocolLimits}
    {frame : WriteFrame} (h : encodeSubmission submission limits = .ok frame) :
    frame = ⟨wireFrame submission.parcel, 0, submission.ticket, submission.reservedBytes⟩ ∧
      submission.parcel.Fits limits ∧ submission.parcel.segments.length < 2 ^ 32 := by
  unfold encodeSubmission at h
  cases hencode : encodeParcel submission.parcel limits with
  | error error =>
    rw [hencode] at h
    cases h
  | ok encoded =>
    rw [hencode] at h
    obtain ⟨rfl, hfits, hcount⟩ := encodeParcel_ok hencode
    cases h
    exact ⟨rfl, hfits, hcount⟩

theorem encodeSubmission_of_fits {submission : Submission} {limits : ProtocolLimits}
    (hfits : submission.parcel.Fits limits) (hcount : submission.parcel.segments.length < 2 ^ 32) :
    encodeSubmission submission limits =
      .ok ⟨wireFrame submission.parcel, 0, submission.ticket, submission.reservedBytes⟩ := by
  rw [encodeSubmission, encodeParcel_of_fits hfits hcount]
  rfl

/-! ## Receiving -/

/-- Bytes that fit the buffer are appended to it, however they were cut. -/
theorem receive_data {maxRetained : Nat} {peer : LocalityId} {chunks : List (List UInt8)}
    (hchunks : ∀ chunk ∈ chunks, chunk ≠ []) (read : List UInt8)
    (hroom : read.length + chunks.flatten.length ≤ maxRetained) :
    receive maxRetained peer read (chunks.map .data) =
      (read ++ chunks.flatten, .ok (decide (chunks ≠ []))) := by
  induction chunks generalizing read with
  | nil => simp [receive]
  | cons chunk rest ih =>
    rw [List.flatten_cons, List.length_append] at hroom
    have hchunk : chunk.length ≠ 0 := by
      intro hzero
      exact hchunks chunk List.mem_cons_self (List.eq_nil_of_length_eq_zero hzero)
    have hrest := ih (fun c hc => hchunks c (List.mem_cons_of_mem _ hc)) (read ++ chunk)
      (by rw [List.length_append]; omega)
    rw [List.map_cons, receive, if_neg hchunk, if_neg (by omega), hrest]
    simp [List.append_assoc]

/-- Bytes that do not fit the buffer fail the stream. -/
theorem receive_overflow {maxRetained : Nat} {peer : LocalityId} {chunks : List (List UInt8)}
    (hchunks : ∀ chunk ∈ chunks, chunk ≠ []) (read : List UInt8)
    (hover : maxRetained < read.length + chunks.flatten.length)
    (hread : read.length ≤ maxRetained) :
    ∃ left actual, receive maxRetained peer read (chunks.map .data) =
      (left, .error (.byteLimit actual maxRetained)) := by
  induction chunks generalizing read with
  | nil =>
    rw [List.flatten_nil, List.length_nil] at hover
    omega
  | cons chunk rest ih =>
    rw [List.flatten_cons, List.length_append] at hover
    have hchunk : chunk.length ≠ 0 := by
      intro hzero
      exact hchunks chunk List.mem_cons_self (List.eq_nil_of_length_eq_zero hzero)
    rw [List.map_cons, receive, if_neg hchunk]
    by_cases hfirst : maxRetained < read.length + chunk.length
    · rw [if_pos hfirst]
      exact ⟨read, _, rfl⟩
    · rw [if_neg hfirst]
      obtain ⟨left, actual, hrest⟩ := ih (fun c hc => hchunks c (List.mem_cons_of_mem _ hc))
        (read ++ chunk) (by rw [List.length_append]; omega) (by rw [List.length_append]; omega)
      rw [hrest]
      exact ⟨left, actual, rfl⟩

/-! ## Parsing -/

/-- The parcel belongs on the connection and fits the reader's limits. -/
structure Carried (identity : ConnectionIdentity) (limits : ProtocolLimits) (parcel : Parcel) :
    Prop where
  fits : parcel.Fits limits
  count : parcel.segments.length < 2 ^ 32
  runId : parcel.runId = identity.runId
  source : parcel.source = identity.peer
  destination : parcel.destination = identity.localId

variable {identity : ConnectionIdentity} {limits : ProtocolLimits} {parcel : Parcel}

/-- The length a buffer that starts with a frame announces. -/
theorem field_wireFrame (hframe : parcel.frame < u64Bound) (rest : List UInt8) :
    field (wireFrame parcel ++ rest) 0 lengthBytes = parcel.frame := by
  rw [field, wireFrame, List.append_assoc, slice_front (length_toLe _ _), length_parcelBytes,
    ofLe_toLe (by simpa [lengthBytes, u64Bound] using hframe)]

theorem slice_wireFrame (rest : List UInt8) :
    slice (wireFrame parcel ++ rest) lengthBytes parcel.frame = parcelBytes parcel := by
  rw [wireFrame, List.append_assoc, slice_skip (length_toLe _ _) (Nat.le_refl _), Nat.sub_self,
    slice_front (length_parcelBytes parcel)]

theorem drop_wireFrame (rest : List UInt8) :
    (wireFrame parcel ++ rest).drop (lengthBytes + parcel.frame) = rest := by
  rw [← length_wireFrame, List.drop_left]

/-- A whole frame in front of the buffer is taken off and handed out. -/
theorem parse_frame (hlimits : limits.maxFrameBytes + lengthBytes < u64Bound)
    (h : Carried identity limits parcel) (budget : Nat) (rest : List UInt8) :
    parse identity limits (budget + 1) (wireFrame parcel ++ rest) =
      ((parse identity limits budget rest).1,
        .incoming parcel :: (parse identity limits budget rest).2.1,
        (parse identity limits budget rest).2.2) := by
  have hframe := h.fits.frame
  have hpayload : parcel.payloadLen = .ok parcel.payload :=
    checked_of_lt (lt_of_le_of_lt parcel.payload_le_frame.1 h.fits.bound)
  have hlength : (wireFrame parcel ++ rest).length = lengthBytes + parcel.frame + rest.length := by
    rw [List.length_append, length_wireFrame]
  have hdecode : decodeParcel (parcelBytes parcel) limits = .ok parcel :=
    (decodeParcel_iff h.fits.bound h.count).mpr ⟨rfl, h.fits⟩
  rw [parse]
  simp only [field_wireFrame h.fits.bound, slice_wireFrame, drop_wireFrame, hdecode, hlength]
  rw [if_neg (by omega), if_neg (by omega), if_neg (by omega), if_neg (by omega),
    if_neg (by rw [h.runId]; exact not_not.mpr rfl), if_neg (by simp [h.source, h.destination])]
  simp only [hpayload]

/-- A frame that the reader takes without failing fits its limits. -/
theorem fits_of_parse (hbound : parcel.frame < u64Bound) (hcount : parcel.segments.length < 2 ^ 32)
    {budget : Nat} {rest left : List UInt8} {events : List TransportEvent} {result : Unit}
    (h : parse identity limits (budget + 1) (wireFrame parcel ++ rest) =
      (left, events, .ok result)) : parcel.Fits limits := by
  have hlength : (wireFrame parcel ++ rest).length = lengthBytes + parcel.frame + rest.length := by
    rw [List.length_append, length_wireFrame]
  rw [parse] at h
  simp only [field_wireFrame hbound, slice_wireFrame, hlength] at h
  rw [if_neg (by omega)] at h
  split at h
  · cases h
  split at h
  · cases h
  rw [if_neg (by omega)] at h
  split at h
  · cases h
  · rename_i found hdecode
    exact ((decodeParcel_iff hbound hcount).mp hdecode).2

/-- A partial frame stays in the buffer. -/
theorem parse_partial (hlimits : limits.maxFrameBytes + lengthBytes < u64Bound)
    (h : Carried identity limits parcel) {read rest : List UInt8}
    (hread : read ++ rest = wireFrame parcel) (hrest : rest ≠ []) (budget : Nat) :
    parse identity limits budget read = (read, [], .ok ()) := by
  have hsize := congrArg List.length hread
  rw [List.length_append, length_wireFrame] at hsize
  have hpositive : 0 < rest.length := List.length_pos_iff.mpr hrest
  cases budget with
  | zero => rfl
  | succ budget =>
    rw [parse]
    by_cases hshort : read.length < lengthBytes
    · simp only [if_pos hshort]
    have hfield : field read 0 lengthBytes = parcel.frame := by
      rw [← field_wireFrame h.fits.bound [], List.append_nil, ← hread]
      unfold field slice
      rw [List.drop_zero, List.drop_zero, List.take_append_of_le_length (by omega)]
    have hframe := h.fits.frame
    simp only [hfield, if_neg hshort]
    rw [if_neg (by omega), if_neg (by omega), if_pos (by omega)]

/-- The parcels at the front of a buffer that holds the start of a stream of frames:
    as many as are complete, but no more than the budget. -/
theorem parse_stream (hlimits : limits.maxFrameBytes + lengthBytes < u64Bound)
    {parcels : List Parcel} (h : ∀ parcel ∈ parcels, Carried identity limits parcel)
    (budget : Nat) {read beyond : List UInt8} (hread : read ++ beyond = parcels.flatMap wireFrame) :
    ∃ found rest left, parcels = found ++ rest ∧ read = found.flatMap wireFrame ++ left ∧
      parse identity limits budget read = (left, found.map .incoming, .ok ()) ∧
      left ++ beyond = rest.flatMap wireFrame ∧ found.length ≤ budget ∧
      (found.length < budget → ∀ parcel ∈ rest.head?, left.length < (wireFrame parcel).length) := by
  induction budget generalizing parcels read with
  | zero => exact ⟨[], parcels, read, rfl, rfl, rfl, hread, Nat.le_refl _, by simp⟩
  | succ budget ih =>
    cases parcels with
    | nil =>
      obtain ⟨rfl, rfl⟩ := List.append_eq_nil_iff.mp hread
      exact ⟨[], [], [], rfl, rfl, by simp [parse, lengthBytes], rfl, Nat.zero_le _, by simp⟩
    | cons parcel more =>
      rw [List.flatMap_cons] at hread
      have hcarried := h parcel List.mem_cons_self
      by_cases hwhole : (wireFrame parcel).length ≤ read.length
      · -- The first frame is complete: the rest of the buffer starts the rest of the stream.
        obtain ⟨tail, rfl, htail⟩ : ∃ tail, read = wireFrame parcel ++ tail ∧
            tail ++ beyond = more.flatMap wireFrame := by
          rcases List.append_eq_append_iff.mp hread with ⟨mid, hframe, hmid⟩ | ⟨tail, htail, hmore⟩
          · have hmidLength := congrArg List.length hframe
            rw [List.length_append] at hmidLength
            have hnil : mid = [] := List.eq_nil_of_length_eq_zero (by omega)
            subst hnil
            rw [List.append_nil] at hframe
            exact ⟨[], by rw [hframe, List.append_nil], hmid⟩
          · exact ⟨tail, htail, hmore.symm⟩
        obtain ⟨found, rest, left, hparcels, hfound, hparse, hleft, hcount, hshort⟩ :=
          ih (fun p hp => h p (List.mem_cons_of_mem _ hp)) htail
        refine ⟨parcel :: found, rest, left, by rw [hparcels]; rfl, ?_, ?_, hleft, ?_, ?_⟩
        · rw [hfound, List.flatMap_cons, List.append_assoc]
        · rw [parse_frame hlimits hcarried, hparse]
          rfl
        · simpa using hcount
        · intro hlt
          exact hshort (by simpa using hlt)
      · -- The buffer ends inside the first frame.
        refine ⟨[], parcel :: more, read, rfl, rfl, ?_, hread, Nat.zero_le _, ?_⟩
        · rcases List.append_eq_append_iff.mp hread with ⟨mid, hframe, hmid⟩ | ⟨tail, htail, hmore⟩
          · apply parse_partial hlimits hcarried hframe.symm
            rintro rfl
            rw [List.append_nil] at hframe
            rw [hframe] at hwhole
            exact hwhole (Nat.le_refl _)
          · rw [htail, List.length_append] at hwhole
            omega
        · rintro - p hp
          cases hp
          exact not_le.mp hwhole

/-- One call of `service_read` on a buffer that holds the start of a stream of frames and
    has room for what arrives. -/
theorem serviceRead_stream (hlimits : limits.maxFrameBytes + lengthBytes < u64Bound)
    {parcels : List Parcel} (h : ∀ parcel ∈ parcels, Carried identity limits parcel)
    {stream : StreamIo} {chunks : List (List UInt8)} (hchunks : ∀ chunk ∈ chunks, chunk ≠ [])
    (hroom : stream.read.length + chunks.flatten.length ≤ limits.maxFrameBytes + lengthBytes)
    (budget : Nat) {beyond : List UInt8}
    (hread : stream.read ++ chunks.flatten ++ beyond = parcels.flatMap wireFrame) :
    ∃ found rest left, parcels = found ++ rest ∧
      stream.read ++ chunks.flatten = found.flatMap wireFrame ++ left ∧
      serviceRead stream identity limits budget (chunks.map .data) =
        ({ stream with read := left }, found.map .incoming, .ok (decide (chunks ≠ []))) ∧
      left ++ beyond = rest.flatMap wireFrame ∧ found.length ≤ budget ∧
      (found.length < budget → ∀ parcel ∈ rest.head?, left.length < (wireFrame parcel).length) := by
  obtain ⟨found, rest, left, hparcels, hfound, hparse, hleft, hcount, hshort⟩ :=
    parse_stream hlimits h budget hread
  refine ⟨found, rest, left, hparcels, hfound, ?_, hleft, hcount, hshort⟩
  rw [serviceRead, if_neg (by omega), receive_data hchunks stream.read hroom]
  simp only [hparse]

end Hataori.Transport
