import Hataori.Pmap.Frames
import Hataori.Placement.Transfers

/-!
# What the channels carry

A channel carries the frames of the messages that are on their way, and of nothing else. So a
rank that receives a header finds the header that was sent, and the payload that belongs to it
under the other tag; what a payload decodes to is the only thing the bytes decide. A worker over
frames then does what the worker over messages does.
-/

namespace Hataori.Pmap

open Hataori.Scheduler
open Hataori.Placement (Codec Header MessageKind WireError encodePayload decodePayload
  checkedMpiCount checkedUsizeLength protocolVersion maxWireBytes validateStatus
  validatePayloadLen)

variable {T U α : Type}

/-! ## The frame of a message -/

/-- A value that is decoded from the bytes of another is that other. -/
def Faithful (codec : Codec α) : Prop :=
  ∀ value bytes found, encodePayload codec value = .ok bytes →
    decodePayload codec bytes = .ok found → found = value

/-- The status of a result as its header has it. -/
def MessageStatus.onWire : MessageStatus → Placement.MessageStatus
  | .ok => .ok
  | .error => .error

/-- The header of a message and its payload. -/
inductive Framed (codecs : Codecs T U) : Message T U → Header → Option (List UInt8) → Prop where
  | ready : Framed codecs .ready ⟨protocolVersion, .ready, .none, 0, 0, 0⟩ none
  | task {batchId itemCount : Nat} {items : List (Nat × T)} {bytes : List UInt8}
      (hbytes : encodePayload codecs.tasks items = .ok bytes) (hbatch : batchId < 2 ^ 64)
      (hcount : itemCount < 2 ^ 64) :
      Framed codecs (.task batchId itemCount items)
        ⟨protocolVersion, .task, .none, batchId, itemCount, bytes.length⟩ (some bytes)
  | result {status : MessageStatus} {batchId itemCount : Nat} {payload : ResultPayload U}
      {bytes : List UInt8} (hbytes : encodePayload codecs.results payload = .ok bytes)
      (hbatch : batchId < 2 ^ 64) (hcount : itemCount < 2 ^ 64) :
      Framed codecs (.result status batchId itemCount payload)
        ⟨protocolVersion, .result, status.onWire, batchId, itemCount, bytes.length⟩ (some bytes)
  | stop : Framed codecs .stop ⟨protocolVersion, .stop, .none, 0, 0, 0⟩ none
  | drain : Framed codecs .drain ⟨protocolVersion, .drain, .none, 0, 0, 0⟩ none

theorem encodePayload_length {codec : Codec α} {value : α} {bytes : List UInt8}
    (h : encodePayload codec value = .ok bytes) : bytes.length ≤ maxWireBytes := by
  unfold encodePayload at h
  split at h
  · cases h
  · unfold validatePayloadLen at h
    split at h
    · cases h
      assumption
    · cases h

theorem Framed.payload_bound {codecs : Codecs T U} {message : Message T U} {value : Header}
    {payload : Option (List UInt8)} (h : Framed codecs message value payload) :
    value.payloadLen ≤ maxWireBytes := by
  cases h with
  | task hbytes _ _ => exact encodePayload_length hbytes
  | result hbytes _ _ => exact encodePayload_length hbytes
  | _ => exact Nat.zero_le _

/-- The header of a frame is read as it was written. -/
theorem Framed.decode_encode {codecs : Codecs T U} {message : Message T U} {value : Header}
    {payload : Option (List UInt8)} (h : Framed codecs message value payload) :
    Header.decode value.encode = .ok value := by
  have hbound := h.payload_bound
  cases h with
  | ready => exact Header.decode_encode _ rfl rfl (by decide) (by decide) hbound
  | task hbytes hbatch hcount => exact Header.decode_encode _ rfl rfl hbatch hcount hbound
  | @result status _ _ _ _ hbytes hbatch hcount =>
    exact Header.decode_encode _ rfl (by cases status <;> rfl) hbatch hcount hbound
  | stop => exact Header.decode_encode _ rfl rfl (by decide) (by decide) hbound
  | drain => exact Header.decode_encode _ rfl rfl (by decide) (by decide) hbound

namespace Channel

/-- The channel after a frame. -/
def push (channel : Channel) (value : Header) (payload : Option (List UInt8)) : Channel :=
  ⟨channel.headers ++ [value.encode], channel.payloads ++ payload.toList⟩

theorem sendEmpty_eq {kind : MessageKind} (channel : Channel)
    (hkind : validateStatus kind .none = .ok ()) :
    channel.sendEmpty kind 0 = .ok (channel.push ⟨protocolVersion, kind, .none, 0, 0, 0⟩ none) := by
  unfold sendEmpty header Header.new
  rw [hkind]
  simp only [push, Option.toList, List.append_nil]
  rfl

theorem sendFrame_ok {codec : Codec α} {channel next : Channel} {kind : MessageKind}
    {status : Placement.MessageStatus} {batchId itemCount : Nat} {payload : α}
    (h : channel.sendFrame codec kind status batchId itemCount payload = .ok next) :
    ∃ bytes, encodePayload codec payload = .ok bytes ∧
      next = channel.push ⟨protocolVersion, kind, status, batchId, itemCount, bytes.length⟩
        (some bytes) := by
  unfold sendFrame at h
  cases hbytes : encodePayload codec payload with
  | error error =>
    rw [hbytes] at h
    cases h
  | ok bytes =>
    refine ⟨bytes, rfl, ?_⟩
    rw [hbytes] at h
    unfold header Header.new at h
    cases hstatus : validateStatus kind status with
    | error error =>
      rw [hstatus] at h
      cases h
    | ok _ =>
      have hlength : validatePayloadLen bytes.length = .ok () :=
        if_pos (encodePayload_length hbytes)
      rw [hstatus] at h
      simp only [wireError, bind, Except.bind, hlength, pure, Except.pure, Except.ok.injEq] at h
      exact h.symm

end Channel

/-- The frames of these messages, and no others, are in the channel. -/
inductive Carries (codecs : Codecs T U) : List (Message T U) → Channel → Prop where
  | nil : Carries codecs [] .empty
  | cons {message : Message T U} {rest : List (Message T U)} {value : Header}
      {payload : Option (List UInt8)} {channel : Channel}
      (hframed : Framed codecs message value payload) (hrest : Carries codecs rest channel) :
      Carries codecs (message :: rest)
        ⟨value.encode :: channel.headers, payload.toList ++ channel.payloads⟩

section Channels

variable {codecs : Codecs T U} {messages : List (Message T U)} {message : Message T U}
  {channel : Channel} {value : Header} {payload : Option (List UInt8)}

theorem Carries.push (h : Carries codecs messages channel)
    (hframed : Framed codecs message value payload) :
    Carries codecs (messages ++ [message]) (channel.push value payload) := by
  induction h with
  | nil =>
    have hlast := Carries.cons hframed (.nil : Carries codecs [] .empty)
    rw [Channel.empty, List.append_nil] at hlast
    exact hlast
  | cons hfirst hrest ih =>
    have hall := Carries.cons hfirst ih
    rw [Channel.push, ← List.append_assoc] at hall
    exact hall

theorem Carries.empty_of_nil (h : Carries codecs [] channel) : channel = .empty := by
  cases h
  rfl

/-- The header of the first message is received. -/
theorem Carries.receiveHeader (h : Carries codecs (message :: messages) channel) :
    ∃ value payload rest, Framed codecs message value payload ∧ Carries codecs messages rest ∧
      channel.receiveHeader =
        some (.ok value, ⟨rest.headers, payload.toList ++ rest.payloads⟩) := by
  cases h with
  | @cons _ _ value payload rest hframed hrest =>
    refine ⟨value, payload, rest, hframed, hrest, ?_⟩
    simp only [Channel.receiveHeader, hframed.decode_encode, wireError]

theorem Carries.receiveHeader_nil (h : Carries codecs [] channel) :
    channel.receiveHeader = none := by
  rw [h.empty_of_nil]
  rfl

/-- The payload of a header is the one that was sent after it. -/
theorem receivePayload_eq {codec : Codec α} {sent : α} {bytes : List UInt8} {rest : Channel}
    (hbytes : encodePayload codec sent = .ok bytes) (hlength : value.payloadLen = bytes.length) :
    Channel.receivePayload codec ⟨rest.headers, (some bytes).toList ++ rest.payloads⟩ value =
      some (wireError (decodePayload codec bytes), rest) := by
  have hbound := encodePayload_length hbytes
  have hcount : checkedMpiCount bytes.length = .ok bytes.length := if_pos hbound
  have husize : checkedUsizeLength bytes.length = .ok bytes.length :=
    if_pos (hbound.trans (by decide))
  unfold Channel.receivePayload
  rw [hlength, hcount, husize]
  simp [wireError]

/-- What a faithful codec gives back, as the protocol of messages has it. -/
theorem wireError_decode {codec : Codec α} {sent : α} {bytes : List UInt8}
    (hcodec : Faithful codec) (hbytes : encodePayload codec sent = .ok bytes) :
    wireError (decodePayload codec bytes) = .ok sent ∨
      ∃ text, wireError (decodePayload codec bytes) = .error (.wire, text) := by
  cases hfound : decodePayload codec bytes with
  | ok found =>
    rw [hcodec sent bytes found hbytes hfound]
    exact Or.inl rfl
  | error error => exact Or.inr ⟨_, rfl⟩

end Channels

/-! ## Numbers that fit in a header -/

/-- A message from a worker to the root. -/
def Message.goesUp : Message T U → Prop
  | .ready | .result .. | .drain => True
  | .task .. | .stop => False

/-- A message from the root to a worker. -/
def Message.goesDown : Message T U → Prop
  | .task _ itemCount items => itemCount = items.length
  | .stop => True
  | .ready | .result .. | .drain => False

/-- The numbers of a batch fit. -/
structure Job.Fits (job : Job T) : Prop where
  batchId : job.batchId < 2 ^ 64
  itemCount : job.itemCount < 2 ^ 64
  items : job.items.length < 2 ^ 64

/-- The numbers of an outcome fit. -/
structure WorkerBatchOutcome.Fits (outcome : WorkerBatchOutcome U) : Prop where
  batchId : outcome.batchId < 2 ^ 64
  itemCount : outcome.itemCount < 2 ^ 64
  values : ∀ values, outcome.result = .values values → values.length < 2 ^ 64

/-- The numbers a prefetching worker has in hand fit. -/
def NextWorkerBatch.Fits : NextWorkerBatch T U → Prop
  | .running job => job.Fits
  | .ready outcome => outcome.Fits
  | .stop => True

/-- The numbers a worker has in hand fit. -/
def WorkerPhase.Fits : WorkerPhase T U → Prop
  | .evaluating job | .running job | .awaitingNext job => job.Fits
  | .reporting outcome => outcome.Fits
  | .collecting job next => job.Fits ∧ next.Fits
  | .handing outcome next => outcome.Fits ∧ next.Fits
  | .idle | .awaiting | .draining | .done | .aborted => True

theorem Job.Fits.evaluate {job : Job T} (h : job.Fits) (outcomes : List (Except String U)) :
    (Pmap.evaluate job outcomes).Fits := by
  refine ⟨h.batchId, h.itemCount, fun values hvalues => ?_⟩
  simp only [Pmap.evaluate] at hvalues
  split at hvalues
  · rename_i found hfound
    cases hvalues
    rw [List.length_zip, List.length_map]
    exact lt_of_le_of_lt (Nat.min_le_left _ _) h.items
  · cases hvalues

theorem fits_decodeFailure {job : Job T} {text : String} (hbatch : job.batchId < 2 ^ 64) :
    (decodeFailure job text : WorkerBatchOutcome U).Fits := by
  refine ⟨hbatch, (by decide : 1 < 2 ^ 64), fun values hvalues => ?_⟩
  cases hvalues

theorem NextWorkerBatch.Fits.afterHanding {next : NextWorkerBatch T U} (h : next.Fits) :
    (Link.afterHanding next).Fits := by
  cases next with
  | running job => exact h
  | ready outcome => exact h
  | stop => trivial

/-! ## Workers -/

/-- A worker over frames and the same worker over messages. -/
structure Mirrors (codecs : Codecs T U) (station : Station T U) (link : Link T U) : Prop where
  phase : station.phase = link.phase
  localKey : station.localKey = link.localKey
  localError : station.localError = link.localError
  down : Carries codecs link.down station.down
  up : Carries codecs link.up station.up
  goesDown : ∀ message ∈ link.down, message.goesDown
  goesUp : ∀ message ∈ link.up, message.goesUp
  fits : link.phase.Fits

/-- The action of the protocol of frames: whether a payload decodes is not for the surroundings
    to decide. -/
def WorkerAction.onWire : WorkerAction U → StationAction U
  | .send => .send
  | .receive _ => .receive
  | .evaluate outcomes => .evaluate outcomes

section Workers

variable {codecs : Codecs T U} {station next : Station T U} {link : Link T U} {prefetch : Bool}
  {rank worldSize : Nat}

/-- A message is sent. -/
theorem Mirrors.push (h : Mirrors codecs station link) {message : Message T U} {value : Header}
    {payload : Option (List UInt8)} {phase : WorkerPhase T U} (readies : Nat)
    (hframed : Framed codecs message value payload) (hup : message.goesUp) (hfits : phase.Fits) :
    Mirrors codecs { station with phase := phase, up := station.up.push value payload }
      { link with phase := phase, up := link.up ++ [message], readies := readies } where
  phase := rfl
  localKey := h.localKey
  localError := h.localError
  down := h.down
  up := h.up.push hframed
  goesDown := h.goesDown
  goesUp := by
    intro other hmem
    rcases List.mem_append.mp hmem with hmem | hmem
    · exact h.goesUp other hmem
    · exact List.mem_singleton.mp hmem ▸ hup
  fits := hfits

theorem Mirrors.recordFailure (h : Mirrors codecs station link) (prefetch : Bool) (key : Nat)
    (error : LocalError) :
    Mirrors codecs (station.recordFailure prefetch key error)
      (link.recordFailure prefetch key error) := by
  unfold Station.recordFailure Link.recordFailure
  rw [h.localKey]
  split
  · split
    · exact ⟨h.phase, rfl, rfl, h.down, h.up, h.goesDown, h.goesUp, h.fits⟩
    · exact h
  · exact ⟨h.phase, rfl, rfl, h.down, h.up, h.goesDown, h.goesUp, h.fits⟩

/-- A frame that is sent is that of the message. -/
theorem Mirrors.sent (h : Mirrors codecs station link) (status : MessageStatus)
    {phase : WorkerPhase T U} {batchId itemCount : Nat} {payload : ResultPayload U}
    (hbatch : batchId < 2 ^ 64) (hcount : itemCount < 2 ^ 64) (hfits : phase.Fits) :
    (station.sent phase (station.up.sendFrame codecs.results .result status.onWire batchId itemCount
      payload)).isAborted = true ∨
    Mirrors codecs (station.sent phase (station.up.sendFrame codecs.results .result status.onWire
      batchId itemCount payload))
      { link with
        phase := phase
        up := link.up ++ [.result status batchId itemCount payload] } := by
  cases hsent : station.up.sendFrame codecs.results .result status.onWire batchId itemCount
      payload with
  | error error => exact Or.inl rfl
  | ok up =>
    obtain ⟨bytes, hbytes, rfl⟩ := Channel.sendFrame_ok hsent
    exact Or.inr (h.push link.readies (.result hbytes hbatch hcount) trivial hfits)

theorem Mirrors.report (h : Mirrors codecs station link) {outcome : WorkerBatchOutcome U}
    {phase : WorkerPhase T U} (houtcome : outcome.Fits) (hfits : phase.Fits) :
    (station.report codecs prefetch rank worldSize outcome phase).isAborted = true ∨
      Mirrors codecs (station.report codecs prefetch rank worldSize outcome phase)
        (link.report prefetch rank worldSize outcome phase) := by
  unfold Station.report Link.report resultMessage
  cases hresult : outcome.result with
  | values values =>
    exact h.sent .ok houtcome.batchId (houtcome.values values hresult) hfits
  | error failure errorClass kind =>
    dsimp only
    cases errorKey failure.index errorClass rank worldSize with
    | none => exact Or.inl rfl
    | some key =>
      have hrecorded := h.recordFailure prefetch key (kind, failure.message)
      have hup : (station.recordFailure prefetch key (kind, failure.message)).up = station.up := by
        unfold Station.recordFailure
        split
        · split <;> rfl
        · rfl
      dsimp only
      rw [← hup]
      exact hrecorded.sent .error houtcome.batchId houtcome.itemCount hfits

/-- What a worker finds in its channel is the first message, with a fault if its payload does not
    decode. -/
theorem Mirrors.receiveReply (h : Mirrors codecs station link) (prefetch : Bool)
    (hcodec : Faithful codecs.tasks) {message : Message T U} {rest : List (Message T U)}
    (hdown : link.down = message :: rest) :
    ∃ reply channel fault, station.down.receiveReply codecs = some (reply, channel) ∧
      Carries codecs rest channel ∧
      (Station.afterFirst prefetch reply : WorkerPhase T U) =
        Link.afterFirst prefetch fault message ∧
      (∀ job : Job T, (Station.afterNext job reply : WorkerPhase T U) =
        Link.afterNext job fault message) ∧
      (Link.afterFirst prefetch fault message : WorkerPhase T U).Fits ∧
      (∀ job : Job T, job.Fits → (Link.afterNext job fault message : WorkerPhase T U).Fits) := by
  have hcarries := h.down
  rw [hdown] at hcarries
  obtain ⟨value, payload, channel, hframed, hrest, hheader⟩ := hcarries.receiveHeader
  have hgoes := h.goesDown message (hdown ▸ List.mem_cons_self)
  unfold Channel.receiveReply
  rw [hheader]
  cases hframed with
  | ready => cases hgoes
  | result _ _ _ => cases hgoes
  | drain => cases hgoes
  | stop =>
    exact ⟨.stop, channel, none, rfl, hrest, rfl, fun _ => rfl, trivial,
      fun job hjob => ⟨hjob, trivial⟩⟩
  | @task batchId itemCount items bytes hbytes hbatch hcount =>
    have hlength : itemCount = items.length := hgoes
    have hitems : items.length < 2 ^ 64 := hlength ▸ hcount
    dsimp only
    rw [receivePayload_eq hbytes rfl]
    rcases wireError_decode hcodec hbytes with hfound | ⟨text, hfound⟩
    · refine ⟨_, _, none, rfl, hrest, ?_⟩
      rw [hfound]
      refine ⟨rfl, fun _ => rfl, ?_, fun job hjob => ⟨hjob, ⟨hbatch, hitems, hitems⟩⟩⟩
      unfold Link.afterFirst
      dsimp only
      split
      · exact ⟨hbatch, hitems, hitems⟩
      · exact ⟨hbatch, hcount, hitems⟩
    · refine ⟨_, _, some text, rfl, hrest, ?_⟩
      rw [hfound]
      exact ⟨rfl, fun _ => rfl, fits_decodeFailure hbatch,
        fun job hjob => ⟨hjob, fits_decodeFailure hbatch⟩⟩

/-- The worker goes on with what it received. -/
theorem Mirrors.received (h : Mirrors codecs station link) {message : Message T U}
    {rest : List (Message T U)} {channel : Channel} {phase : WorkerPhase T U}
    (hdown : link.down = message :: rest) (hcarries : Carries codecs rest channel)
    (hfits : phase.Fits) :
    Mirrors codecs { station with phase := phase, down := channel }
      { link with phase := phase, down := rest, replies := link.replies + 1 } where
  phase := rfl
  localKey := h.localKey
  localError := h.localError
  down := hcarries
  up := h.up
  goesDown := fun other hmem => h.goesDown other (hdown ▸ List.mem_cons_of_mem message hmem)
  goesUp := h.goesUp
  fits := hfits

/-- A worker that has nothing to receive waits. -/
theorem Mirrors.waits (h : Mirrors codecs station link) (hdown : link.down = []) :
    station.down.receiveReply codecs = none := by
  have hcarries := h.down
  rw [hdown] at hcarries
  unfold Channel.receiveReply
  rw [hcarries.receiveHeader_nil]

/-- The worker over messages can do what the worker over frames does. -/
theorem Mirrors.follows (h : Mirrors codecs station link) (hcodec : Faithful codecs.tasks)
    {action : StationAction U}
    (hstep : station.step codecs prefetch rank worldSize action = some next) :
    ∃ choice after, WorkerAction.onWire choice = action ∧
      link.step prefetch rank worldSize choice = some after ∧
      (next.isAborted = true ∨ Mirrors codecs next after) := by
  have hfits := h.fits
  unfold Station.step at hstep
  rw [h.phase] at hstep
  cases action with
  | send =>
    refine ⟨.send, ?_⟩
    unfold Link.step
    cases hphase : link.phase with
    | idle =>
      rw [hphase] at hstep
      cases hstep
      refine ⟨_, rfl, rfl, Or.inr ?_⟩
      rw [Channel.sendEmpty_eq station.up rfl]
      exact h.push (link.readies + 1) .ready trivial trivial
    | running job =>
      rw [hphase] at hstep hfits
      cases hstep
      refine ⟨_, rfl, rfl, Or.inr ?_⟩
      rw [Channel.sendEmpty_eq station.up rfl]
      exact h.push (link.readies + 1) .ready trivial hfits
    | reporting outcome =>
      rw [hphase] at hstep hfits
      cases hstep
      exact ⟨_, rfl, rfl, h.report hfits trivial⟩
    | handing outcome following =>
      rw [hphase] at hstep hfits
      cases hstep
      exact ⟨_, rfl, rfl, h.report hfits.1 hfits.2.afterHanding⟩
    | draining =>
      rw [hphase] at hstep
      cases hstep
      refine ⟨_, rfl, rfl, Or.inr ?_⟩
      rw [Channel.sendEmpty_eq station.up rfl]
      exact h.push link.readies .drain trivial trivial
    | _ =>
      rw [hphase] at hstep
      cases hstep
  | receive =>
    cases hdown : link.down with
    | nil =>
      dsimp only at hstep
      rw [h.waits hdown] at hstep
      split at hstep <;> cases hstep
    | cons message rest =>
      obtain ⟨reply, channel, fault, hreply, hcarries, hfirst, hnext, hfitsFirst, hfitsNext⟩ :=
        h.receiveReply prefetch hcodec hdown
      refine ⟨.receive fault, ?_⟩
      unfold Link.step
      rw [hreply] at hstep
      cases hphase : link.phase with
      | awaiting =>
        rw [hphase] at hstep
        cases hstep
        refine ⟨_, rfl, by rw [hdown], Or.inr ?_⟩
        dsimp only
        rw [hfirst]
        exact h.received hdown hcarries hfitsFirst
      | awaitingNext job =>
        rw [hphase] at hstep hfits
        cases hstep
        refine ⟨_, rfl, by rw [hdown], Or.inr ?_⟩
        dsimp only
        rw [hnext job]
        exact h.received hdown hcarries (hfitsNext job hfits)
      | _ =>
        rw [hphase] at hstep
        cases hstep
  | evaluate outcomes =>
    refine ⟨.evaluate outcomes, ?_⟩
    unfold Link.step
    cases hphase : link.phase with
    | evaluating job =>
      rw [hphase] at hstep hfits
      dsimp only at hstep ⊢
      split at hstep
      · rename_i hlength
        cases hstep
        refine ⟨_, rfl, if_pos hlength, Or.inr ?_⟩
        exact ⟨rfl, h.localKey, h.localError, h.down, h.up, h.goesDown, h.goesUp,
          Job.Fits.evaluate hfits outcomes⟩
      · cases hstep
    | collecting job following =>
      rw [hphase] at hstep hfits
      dsimp only at hstep ⊢
      split at hstep
      · rename_i hlength
        cases hstep
        refine ⟨_, rfl, if_pos hlength, Or.inr ?_⟩
        exact ⟨rfl, h.localKey, h.localError, h.down, h.up, h.goesDown, h.goesUp,
          hfits.1.evaluate outcomes, hfits.2⟩
      · cases hstep
    | _ =>
      rw [hphase] at hstep
      cases hstep

/-- The worker over frames never waits where the worker over messages does not. -/
theorem Mirrors.offers (h : Mirrors codecs station link) (hcodec : Faithful codecs.tasks)
    {choice : WorkerAction U} {after : Link T U}
    (hstep : link.step prefetch rank worldSize choice = some after) :
    (station.step codecs prefetch rank worldSize choice.onWire).isSome := by
  unfold Link.step at hstep
  unfold Station.step
  rw [h.phase]
  cases choice with
  | send =>
    dsimp only [WorkerAction.onWire] at hstep ⊢
    cases hphase : link.phase <;> rw [hphase] at hstep <;> first | rfl | cases hstep
  | receive fault =>
    dsimp only [WorkerAction.onWire] at hstep ⊢
    cases hdown : link.down with
    | nil =>
      rw [hdown] at hstep
      split at hstep
      · rename_i heq
        cases heq
      · rename_i heq
        cases heq
      · cases hstep
    | cons message rest =>
      obtain ⟨reply, channel, -, hreply, -⟩ := h.receiveReply prefetch hcodec hdown
      rw [hreply]
      cases hphase : link.phase <;> rw [hphase] at hstep <;> first | rfl | cases hstep
  | evaluate outcomes =>
    dsimp only [WorkerAction.onWire] at hstep ⊢
    cases hphase : link.phase with
    | evaluating job =>
      rw [hphase] at hstep
      dsimp only at hstep ⊢
      split at hstep
      · rename_i hlength
        rw [if_pos hlength]
        rfl
      · cases hstep
    | collecting job following =>
      rw [hphase] at hstep
      dsimp only at hstep ⊢
      split at hstep
      · rename_i hlength
        rw [if_pos hlength]
        rfl
      · cases hstep
    | _ =>
      rw [hphase] at hstep
      cases hstep

end Workers

end Hataori.Pmap
