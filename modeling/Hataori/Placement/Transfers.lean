import Hataori.Placement.Agreement

/-!
# Frames between the ranks

A frame that is sent is received whole and its header is read as it was written, so that
what a receiver decodes is the payload. The root sends every other rank a frame, or
receives one from each.
-/

namespace Hataori.Placement

open Lib.Bytes Lib.Ranks Lib.Confluence Hataori.Pmap

variable {n : Nat} {T β : Type}

/-! ## The header of a frame -/

/-- The header bytes of a frame. -/
def frameHeader (operation : Operation) (payload : List UInt8) : List UInt8 :=
  (Header.mk protocolVersion operation.messageKind .none frameId frameItems payload.length).encode

theorem validateStatus_frame (operation : Operation) :
    validateStatus operation.messageKind .none = .ok () := by
  cases operation <;> rfl

theorem validatePayloadLen_of_le {length : Nat} (h : length ≤ maxWireBytes) :
    validatePayloadLen length = .ok () := if_pos h

theorem sendFrame_eq {operation : Operation} {payload : List UInt8} (destination : Fin n)
    (h : payload.length ≤ maxWireBytes) :
    sendFrame destination operation payload =
      .send destination headerTag (frameHeader operation payload)
        (.send destination payloadTag payload (.done ())) := by
  unfold sendFrame Header.new
  rw [validateStatus_frame, validatePayloadLen_of_le h]
  rfl

theorem MessageKind.tryFrom_code (kind : MessageKind) : MessageKind.tryFrom kind.code = .ok kind := by
  cases kind <;> rfl

theorem MessageStatus.tryFrom_code (status : MessageStatus) :
    MessageStatus.tryFrom status.code = .ok status := by
  cases status <;> rfl

section Fields

variable (header : Header)

theorem field_version (h : header.version < 256 ^ 2) :
    field header.encode 0 2 = header.version := by
  rw [Header.encode, field, slice_front (length_toLe _ _)]
  exact ofLe_toLe h

theorem slice_encode (start width : Nat) (h : 4 ≤ start) :
    slice header.encode start width =
      slice (toLe 8 header.batchId ++ (toLe 8 header.itemCount ++ toLe 8 header.payloadLen))
        (start - 4) width := by
  rw [Header.encode, slice_skip (length_toLe 2 _) (by omega),
    slice_skip (show [header.kind.code].length = 1 from rfl) (by omega),
    slice_skip (show [header.status.code].length = 1 from rfl) (by omega)]
  congr 1

theorem field_batchId (h : header.batchId < 256 ^ 8) :
    field header.encode 4 8 = header.batchId := by
  rw [field, slice_encode header 4 8 (by decide), slice_front (length_toLe _ _)]
  exact ofLe_toLe h

theorem field_itemCount (h : header.itemCount < 256 ^ 8) :
    field header.encode 12 8 = header.itemCount := by
  rw [field, slice_encode header 12 8 (by decide), slice_skip (length_toLe 8 _) (by decide),
    slice_front (length_toLe _ _)]
  exact ofLe_toLe h

theorem field_payloadLen (h : header.payloadLen < 256 ^ 8) :
    field header.encode 20 8 = header.payloadLen := by
  rw [field, slice_encode header 20 8 (by decide), slice_skip (length_toLe 8 _) (by decide),
    slice_skip (length_toLe 8 _) (by decide), slice_whole (length_toLe _ _)]
  exact ofLe_toLe h

/-- A header is read as it was written. -/
theorem Header.decode_encode (hversion : header.version = protocolVersion)
    (hstatus : validateStatus header.kind header.status = .ok ())
    (hbatch : header.batchId < 256 ^ 8) (hitems : header.itemCount < 256 ^ 8)
    (hlength : header.payloadLen ≤ maxWireBytes) : Header.decode header.encode = .ok header := by
  have hsize : header.encode.length = headerLen := by
    simp [Header.encode, headerLen]
  have hkind : header.encode.getD 2 0 = header.kind.code := by
    simp [Header.encode, toLe]
  have hcode : header.encode.getD 3 0 = header.status.code := by
    simp [Header.encode, toLe]
  have hwidth : header.payloadLen < 256 ^ 8 := lt_of_le_of_lt hlength (by decide)
  unfold Header.decode
  simp only [hsize, field_version header (hversion ▸ by decide), hkind, hcode,
    MessageKind.tryFrom_code, MessageStatus.tryFrom_code, field_batchId header hbatch,
    field_itemCount header hitems, field_payloadLen header hwidth, hversion, ne_eq,
    not_true_eq_false, ↓reduceIte, bind, Except.bind, hstatus, validatePayloadLen_of_le hlength]
  rw [← hversion]
  rfl

end Fields

/-- What a receiver decodes is the payload of the frame. -/
theorem decodeReceived_frame {operation : Operation} {payload : List UInt8} (codec : Codec T)
    (h : payload.length ≤ maxWireBytes) :
    decodeReceived codec (frameHeader operation payload) payload operation =
      wireFailure (decodePayload codec payload) := by
  have hdecode : Header.decode (frameHeader operation payload) = .ok
      ⟨protocolVersion, operation.messageKind, .none, frameId, frameItems, payload.length⟩ :=
    Header.decode_encode _ rfl (validateStatus_frame operation)
      (show frameId < 256 ^ 8 by decide) (show frameItems < 256 ^ 8 by decide) h
  have hcount : checkedMpiCount payload.length = .ok payload.length := if_pos h
  have husize : checkedUsizeLength payload.length = .ok payload.length :=
    if_pos (h.trans (by decide))
  unfold decodeReceived
  rw [hdecode]
  simp only [wireFailure, hcount, husize, bind, Except.bind, ne_eq, not_true_eq_false, or_self,
    ↓reduceIte]

/-! ## Frames on their way -/

variable {config : World n β}

/-- A frame is sent and received. -/
theorem leads_frame {sender receiver : Fin n} {operation : Operation} {payload : List UInt8}
    {next : Unit → Process n β} {then_ : List UInt8 × List UInt8 → Process n β}
    (hne : sender ≠ receiver) (hlength : payload.length ≤ maxWireBytes)
    (hsend : config.procs sender = (sendFrame receiver operation payload).bind next)
    (hreceive : config.procs receiver = (receiveFrame sender).bind then_)
    (hempty : ∀ tag, config.channels sender receiver tag = []) :
    ∃ after, Leads config after ∧ after.channels = config.channels ∧
      after.procs sender = next () ∧
      after.procs receiver = then_ (frameHeader operation payload, payload) ∧
      ∀ other, other ≠ sender → other ≠ receiver → after.procs other = config.procs other := by
  rw [sendFrame_eq receiver hlength] at hsend
  obtain ⟨first, hfirst, hfirstChannels, hfirstSender, hfirstReceiver, hfirstOthers⟩ :=
    reaches_transfer hne hsend hreceive (hempty headerTag)
  obtain ⟨second, hsecond, hsecondChannels, hsecondSender, hsecondReceiver, hsecondOthers⟩ :=
    reaches_transfer hne hfirstSender hfirstReceiver
      ((congrArg (fun channels => channels sender receiver payloadTag) hfirstChannels).trans
        (hempty payloadTag))
  exact ⟨second, hfirst.trans hsecond, hsecondChannels.trans hfirstChannels, hsecondSender,
    hsecondReceiver, fun other hsender hreceiver =>
      (hsecondOthers other hsender hreceiver).trans (hfirstOthers other hsender hreceiver)⟩

/-- The root sends a frame to each of some ranks, and each of them receives it. -/
theorem leads_sendFrames {operation : Operation} {root : Fin n}
    {payloads : Fin n → Option (List UInt8)} {payload : Fin n → List UInt8}
    {next : Unit → Process n β} {then_ : Fin n → List UInt8 × List UInt8 → Process n β}
    {ranks : List (Fin n)} (hnodup : ranks.Nodup)
    (hpayload : ∀ rank ∈ ranks, rank ≠ root → payloads rank = some (payload rank) ∧
      (payload rank).length ≤ maxWireBytes)
    (hsend : config.procs root = (sendFrames operation root.val payloads ranks).bind next)
    (hreceive : ∀ rank ∈ ranks, rank ≠ root →
      config.procs rank = (receiveFrame root).bind (then_ rank))
    (hempty : ∀ rank tag, config.channels root rank tag = []) :
    ∃ after, Leads config after ∧ after.channels = config.channels ∧
      after.procs root = next () ∧
      (∀ rank ∈ ranks, rank ≠ root → after.procs rank =
        then_ rank (frameHeader operation (payload rank), payload rank)) ∧
      ∀ rank, rank ∉ ranks → rank ≠ root → after.procs rank = config.procs rank := by
  induction ranks generalizing config with
  | nil => exact ⟨config, .refl config, rfl, hsend, by simp, fun _ _ _ => rfl⟩
  | cons rank rest ih =>
    obtain ⟨hfresh, hrest⟩ := List.nodup_cons.mp hnodup
    by_cases hroot : rank = root
    · -- The root skips itself.
      subst hroot
      have hskips : config.procs rank = (sendFrames operation rank.val payloads rest).bind next := by
        rw [hsend, sendFrames, if_neg (by simp)]
      obtain ⟨after, hafter, hchannels, hdone, hreached, hothers⟩ := ih hrest
        (fun other hmem => hpayload other (List.mem_cons_of_mem _ hmem)) hskips
        (fun other hmem => hreceive other (List.mem_cons_of_mem _ hmem)) hempty
      refine ⟨after, hafter, hchannels, hdone, fun other hmem hne => ?_, fun other hmem hne => ?_⟩
      · exact hreached other ((List.mem_cons.mp hmem).resolve_left hne) hne
      · exact hothers other (fun hin => hmem (List.mem_cons_of_mem _ hin)) hne
    · obtain ⟨hfound, hlength⟩ := hpayload rank List.mem_cons_self hroot
      have hnext : config.procs root = (sendFrame rank operation (payload rank)).bind fun _ =>
          (sendFrames operation root.val payloads rest).bind next := by
        rw [hsend, sendFrames, if_pos (by simpa [Fin.ext_iff] using hroot), hfound]
        simp only [Proc.bind_eq, Proc.bind_assoc]
      obtain ⟨mid, hmid, hmidChannels, hmidRoot, hmidRank, hmidOthers⟩ :=
        leads_frame (Ne.symm hroot) hlength hnext (hreceive rank List.mem_cons_self hroot)
          (hempty rank)
      obtain ⟨after, hafter, hchannels, hdone, hreached, hothers⟩ := ih hrest
        (fun other hmem => hpayload other (List.mem_cons_of_mem _ hmem)) hmidRoot
        (fun other hmem hne => by
          rw [hmidOthers other hne fun heq => hfresh (heq ▸ hmem)]
          exact hreceive other (List.mem_cons_of_mem _ hmem) hne)
        (fun other tag => by rw [hmidChannels, hempty])
      refine ⟨after, hmid.trans hafter, hchannels.trans hmidChannels, hdone,
        fun other hmem hne => ?_, fun other hmem hne => ?_⟩
      · rcases List.mem_cons.mp hmem with rfl | hmem
        · rw [hothers other hfresh hne, hmidRank]
        · exact hreached other hmem hne
      · obtain ⟨hother, hmem⟩ := not_or.mp fun h => hmem (List.mem_cons.mpr h)
        rw [hothers other hmem hne, hmidOthers other hne hother]

/-- A step of a loop over the ranks that keeps what each attempt gives and its first
    failure. -/
def record {α : Type} (attempt : Fin n → Except Failure α)
    (state : Option Failure × (Fin n → Option α)) (rank : Fin n) :
    Option Failure × (Fin n → Option α) :=
  match attempt rank with
  | .ok value => (state.1, Function.update state.2 rank (some value))
  | .error failure => (recordFailure state.1 failure, state.2)

/-- What the root of `gather` makes of the payloads of some ranks. -/
def collect (codec : Codec T) (root : Fin n) (payload : Fin n → List UInt8) (ranks : List (Fin n))
    (state : Option Failure × (Fin n → Option T)) : Option Failure × (Fin n → Option T) :=
  (ranks.filter fun rank => rank ≠ root).foldl
    (record fun rank => wireFailure (decodePayload codec (payload rank))) state

/-- The root receives a frame from each of some ranks. -/
theorem leads_receiveFrames {codec : Codec T} {root : Fin n} {payload : Fin n → List UInt8}
    {next : Option Failure × (Fin n → Option T) → Process n β} {then_ : Fin n → Unit → Process n β}
    {ranks : List (Fin n)} {state : Option Failure × (Fin n → Option T)} (hnodup : ranks.Nodup)
    (hlength : ∀ rank ∈ ranks, rank ≠ root → (payload rank).length ≤ maxWireBytes)
    (hreceive : config.procs root = (receiveFrames codec root.val ranks state).bind next)
    (hsend : ∀ rank ∈ ranks, rank ≠ root →
      config.procs rank = (sendFrame root .gather (payload rank)).bind (then_ rank))
    (hempty : ∀ rank tag, config.channels rank root tag = []) :
    ∃ after, Leads config after ∧ after.channels = config.channels ∧
      after.procs root = next (collect codec root payload ranks state) ∧
      (∀ rank ∈ ranks, rank ≠ root → after.procs rank = then_ rank ()) ∧
      ∀ rank, rank ∉ ranks → rank ≠ root → after.procs rank = config.procs rank := by
  induction ranks generalizing config state with
  | nil => exact ⟨config, .refl config, rfl, hreceive, by simp, fun _ _ _ => rfl⟩
  | cons rank rest ih =>
    obtain ⟨hfresh, hrest⟩ := List.nodup_cons.mp hnodup
    by_cases hroot : rank = root
    · subst hroot
      have hskips : config.procs rank = (receiveFrames codec rank.val rest state).bind next := by
        rw [hreceive, receiveFrames, if_pos rfl]
      obtain ⟨after, hafter, hchannels, hdone, hsent, hothers⟩ := ih hrest
        (fun other hmem => hlength other (List.mem_cons_of_mem _ hmem)) hskips
        (fun other hmem => hsend other (List.mem_cons_of_mem _ hmem)) hempty
      refine ⟨after, hafter, hchannels, ?_, fun other hmem hne => ?_, fun other hmem hne => ?_⟩
      · rw [collect, List.filter_cons_of_neg (by simp)]
        exact hdone
      · exact hsent other ((List.mem_cons.mp hmem).resolve_left hne) hne
      · exact hothers other (fun hin => hmem (List.mem_cons_of_mem _ hin)) hne
    · have hrank := hlength rank List.mem_cons_self hroot
      have hnext : config.procs root = (receiveFrame rank).bind fun frame =>
          (receiveFrames codec root.val rest
            (match decodeReceived codec frame.1 frame.2 .gather with
            | .ok value => (state.1, Function.update state.2 rank (some value))
            | .error failure => (recordFailure state.1 failure, state.2))).bind next := by
        rw [hreceive, receiveFrames, if_neg (by simpa [Fin.ext_iff] using hroot)]
        exact Proc.bind_assoc _ _ _
      obtain ⟨mid, hmid, hmidChannels, hmidRank, hmidRoot, hmidOthers⟩ :=
        leads_frame hroot hrank (hsend rank List.mem_cons_self hroot) hnext (hempty rank)
      rw [decodeReceived_frame codec hrank] at hmidRoot
      obtain ⟨after, hafter, hchannels, hdone, hsent, hothers⟩ := ih hrest
        (fun other hmem => hlength other (List.mem_cons_of_mem _ hmem)) hmidRoot
        (fun other hmem hne => by
          rw [hmidOthers other (fun heq => hfresh (heq ▸ hmem)) hne]
          exact hsend other (List.mem_cons_of_mem _ hmem) hne)
        (fun other tag => by rw [hmidChannels, hempty])
      refine ⟨after, hmid.trans hafter, hchannels.trans hmidChannels, ?_,
        fun other hmem hne => ?_, fun other hmem hne => ?_⟩
      · rw [collect, List.filter_cons_of_pos (by simpa using hroot)]
        exact hdone
      · rcases List.mem_cons.mp hmem with rfl | hmem
        · rw [hothers other hfresh hne, hmidRank]
        · exact hsent other hmem hne
      · obtain ⟨hother, hmem⟩ := not_or.mp fun h => hmem (List.mem_cons.mpr h)
        rw [hothers other hmem hne, hmidOthers other hother hne]

end Hataori.Placement
