import Hataori.Runtime.Builder

/-!
# Sending runtime messages

`Shared::send` of `hataori-runtime/src/runtime.rs`. A message leaves as a parcel for which the
transport issues a ticket, and the table of tickets holds it until the transport resolves it.
The table has two limits: all parcels but those of `Cancel` stop at the lower one.
-/

namespace Hataori.Runtime

open Hataori.Transport Node

/-- `TicketPurpose`. -/
inductive TicketPurpose where
  | request (request : RequestId)
  | requiredResponse
  | bestEffort
  deriving DecidableEq, Repr

/-- An entry of the table of tickets, with the channel its parcel went to. -/
structure SentTicket where
  ticket : SendTicket
  purpose : TicketPurpose
  channel : Channel
  deriving DecidableEq, Repr

/-- What `send` reads of `Shared` and does not change. -/
structure SendConfig where
  runId : RunId
  localId : LocalityId
  protocolLimits : ProtocolLimits
  limits : RuntimeLimits
  maxActionQueuePerDomain : Nat
  display : ProtocolError → String

/-- `action_limit`. -/
def SendConfig.actionLimit (config : SendConfig) : Nat :=
  saturatingAdd (saturatingAdd config.limits.maxPendingCalls config.limits.maxDedupEntries)
    config.maxActionQueuePerDomain

/-- `total_limit`. -/
def SendConfig.totalLimit (config : SendConfig) : Nat :=
  saturatingAdd config.actionLimit config.limits.maxPendingCalls

/-- The tickets a channel may bring the table to. -/
def SendConfig.ticketLimit (config : SendConfig) (channel : Channel) : Nat :=
  if channel = .control then config.totalLimit else config.actionLimit

/-- What `send` changes of `Shared`. -/
structure Shared where
  nextMessage : Nat
  tickets : List SentTicket

namespace Shared

/-- `Shared` as `start` builds it. -/
def new : Shared := ⟨1, []⟩

/-- `Shared::next_message`. -/
def takeMessage (shared : Shared) : Except RuntimeError MessageId × Shared :=
  if u64Bound ≤ shared.nextMessage + 1 then (.error (.protocol "message id overflow"), shared)
  else
    let next := { shared with nextMessage := shared.nextMessage + 1 }
    match MessageId.new shared.nextMessage with
    | none => (.error (.protocol "zero message id"), next)
    | some messageId => (.ok messageId, next)

/-- The removal of a ticket that `LocalSendComplete` or `SendFailed` resolves. -/
def resolve (shared : Shared) (ticket : SendTicket) : Shared :=
  { shared with tickets := shared.tickets.filter fun entry => entry.ticket ≠ ticket }

/-- `Shared::send`; `trySend` is what the transport answers. -/
def send (config : SendConfig) (shared : Shared) (destination : LocalityId)
    (message : RuntimeMessage) (purpose : TicketPurpose) (traceId : Option TraceId)
    (trySend : Parcel → Except TransportError SendTicket) :
    Except RuntimeError SendTicket × Shared :=
  match shared.takeMessage with
  | (.error error, shared) => (.error error, shared)
  | (.ok messageId, shared) =>
    let parcel := message.parcel config.runId messageId config.localId destination traceId
    match parcel.validate config.protocolLimits with
    | .error error =>
      (.error (.protocol ("runtime parcel exceeds limits: " ++ config.display error)), shared)
    | .ok () =>
      if config.ticketLimit parcel.channel ≤ shared.tickets.length then
        (.error (.resourceExhausted .sendTickets (config.ticketLimit parcel.channel)), shared)
      else
        match trySend parcel with
        | .error error => (.error (.transport error), shared)
        | .ok ticket =>
          (.ok ticket, { shared with
            tickets := (shared.resolve ticket).tickets ++ [⟨ticket, purpose, parcel.channel⟩] })

/-- The sends of a runtime, and what its transport resolves. -/
inductive Op where
  | send (destination : LocalityId) (message : RuntimeMessage) (purpose : TicketPurpose)
    (traceId : Option TraceId) (trySend : Parcel → Except TransportError SendTicket)
  | resolve (ticket : SendTicket)

/-- The state an operation leaves. -/
def apply (config : SendConfig) (shared : Shared) : Op → Shared
  | .send destination message purpose traceId trySend =>
    (shared.send config destination message purpose traceId trySend).2
  | .resolve ticket => shared.resolve ticket

/-- The tickets of parcels on the control channel. -/
def controlTickets (shared : Shared) : List SentTicket :=
  shared.tickets.filter fun entry => entry.channel = .control

/-- The tickets of all other parcels. -/
def dataTickets (shared : Shared) : List SentTicket :=
  shared.tickets.filter fun entry => entry.channel ≠ .control

variable {config : SendConfig} {shared : Shared}

theorem tickets_length (shared : Shared) :
    shared.tickets.length = shared.controlTickets.length + shared.dataTickets.length := by
  rw [List.length_eq_length_filter_add fun entry : SentTicket => decide (entry.channel = .control)]
  simp [controlTickets, dataTickets]

@[simp] theorem takeMessage_tickets (shared : Shared) :
    shared.takeMessage.2.tickets = shared.tickets := by
  unfold takeMessage
  split
  · rfl
  · dsimp only
    split <;> rfl

theorem takeMessage_error {error : RuntimeError} (h : shared.takeMessage.1 = .error error) :
    ∃ text, error = .protocol text := by
  unfold takeMessage at h
  split at h
  · cases h
    exact ⟨_, rfl⟩
  · dsimp only at h
    split at h
    · cases h
      exact ⟨_, rfl⟩
    · cases h

theorem resolve_dataTickets (shared : Shared) (ticket : SendTicket) :
    (shared.resolve ticket).dataTickets.length ≤ shared.dataTickets.length :=
  (List.filter_sublist.filter _).length_le

/-- What `send` makes of the table: nothing, or one entry for a parcel that the limit of its
    channel lets in. -/
theorem send_tickets (config : SendConfig) (shared : Shared) (destination : LocalityId)
    (message : RuntimeMessage) (purpose : TicketPurpose) (traceId : Option TraceId)
    (trySend : Parcel → Except TransportError SendTicket) :
    (shared.send config destination message purpose traceId trySend).2.tickets = shared.tickets ∨
      ∃ ticket channel, shared.tickets.length < config.ticketLimit channel ∧
        (shared.send config destination message purpose traceId trySend).2.tickets =
          (shared.resolve ticket).tickets ++ [⟨ticket, purpose, channel⟩] := by
  have hsame := shared.takeMessage_tickets
  unfold send
  generalize shared.takeMessage = taken at hsame ⊢
  obtain ⟨result, next⟩ := taken
  dsimp only at hsame
  cases result with
  | error error => exact .inl hsame
  | ok messageId =>
    dsimp only
    split
    · exact .inl hsame
    split
    · exact .inl hsame
    rename_i hroom
    split
    · exact .inl hsame
    · rename_i ticket _
      refine .inr ⟨ticket, _, by rw [← hsame]; exact not_le.mp hroom, ?_⟩
      simp only [resolve, hsame]

/-- The tickets that are not for a `Cancel` stay within their limit. -/
theorem apply_dataTickets (h : shared.dataTickets.length ≤ config.actionLimit) (op : Op) :
    (shared.apply config op).dataTickets.length ≤ config.actionLimit := by
  cases op with
  | resolve ticket => exact (shared.resolve_dataTickets ticket).trans h
  | send destination message purpose traceId trySend =>
    rcases send_tickets config shared destination message purpose traceId trySend with
      hsame | ⟨ticket, channel, hroom, hmore⟩
    · rw [apply, dataTickets, hsame]
      exact h
    · have hkept := shared.resolve_dataTickets ticket
      have hall := shared.tickets_length
      rw [apply, dataTickets, hmore, List.filter_append, List.length_append]
      change (shared.resolve ticket).dataTickets.length + _ ≤ _
      by_cases hcontrol : channel = .control
      · simp only [hcontrol, ne_eq, not_true, decide_false, Bool.false_eq_true, not_false_eq_true,
          List.filter_cons_of_neg, List.filter_nil, List.length_nil]
        omega
      · rw [SendConfig.ticketLimit, if_neg hcontrol] at hroom
        have hone := List.length_filter_le (fun entry : SentTicket => entry.channel ≠ .control)
          [⟨ticket, purpose, channel⟩]
        rw [List.length_singleton] at hone
        omega

theorem run_dataTickets (ops : List Op) (h : shared.dataTickets.length ≤ config.actionLimit) :
    (ops.foldl (apply config) shared).dataTickets.length ≤ config.actionLimit := by
  induction ops generalizing shared with
  | nil => exact h
  | cons op rest ih => exact ih (apply_dataTickets h op)

/-- What the other parcels leave of the table is room for `max_pending_calls` more. -/
theorem room_for_cancel (h : shared.dataTickets.length ≤ config.actionLimit)
    (hcontrol : shared.controlTickets.length < config.limits.maxPendingCalls)
    (hmemory : shared.tickets.length < usizeMax) :
    shared.tickets.length < config.ticketLimit .control := by
  have hall := shared.tickets_length
  rw [SendConfig.ticketLimit, if_pos rfl, SendConfig.totalLimit]
  unfold saturatingAdd
  unfold usizeMax at hmemory
  omega

/-- A `Cancel` for which there is room is not refused for lack of tickets. -/
theorem send_cancel (hroom : shared.tickets.length < config.ticketLimit .control)
    {message : RuntimeMessage} (hcancel : message.kind = .cancel) (destination : LocalityId)
    (purpose : TicketPurpose) (traceId : Option TraceId)
    (trySend : Parcel → Except TransportError SendTicket) (limit : Nat) :
    (shared.send config destination message purpose traceId trySend).1 ≠
      .error (.resourceExhausted .sendTickets limit) := by
  have hsame := shared.takeMessage_tickets
  have herror := @takeMessage_error shared
  unfold send
  generalize shared.takeMessage = taken at hsame herror ⊢
  obtain ⟨result, next⟩ := taken
  dsimp only at hsame herror
  cases result with
  | error error =>
    obtain ⟨text, rfl⟩ := herror rfl
    simp
  | ok messageId =>
    have hchannel : (message.parcel config.runId messageId config.localId destination
        traceId).channel = .control := if_pos hcancel
    dsimp only
    split
    · simp
    rw [hchannel, hsame, if_neg (not_le.mpr hroom)]
    split <;> simp

end Shared

end Hataori.Runtime
