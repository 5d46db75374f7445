import Hataori.Transport.Codec

/-!
# The transport contract and its reservations

`hataori-runtime-foundation/src/transport.rs`: events and errors of a transport,
and the `SubmissionState` a handle and its driver share. The submission gate is a
mutex, so `reserve` is one step. Sizes of bytes held in memory do not wrap.
-/

namespace Hataori.Transport

open Hataori.Runtime

/-- `SendTicket`. -/
structure SendTicket where
  get : Nat
  deriving DecidableEq, Repr

/-- `TransportError`. -/
inductive TransportError where
  | protocol (error : ProtocolError)
  | invalidDestination (locality : LocalityId)
  | queueFull (channel : Channel) (limit : Nat)
  | byteLimit (actual limit : Nat)
  | disconnected (peer : LocalityId)
  | peer (message : String)
  | io (message : String)
  | timeout (what : String)
  | shutdown
  | wrongThread
  deriving DecidableEq, Repr

/-- `TransportEvent`. -/
inductive TransportEvent where
  | localSendComplete (ticket : SendTicket)
  | incoming (parcel : Parcel)
  | sendFailed (ticket : SendTicket) (error : TransportError)
  | peerFailed (peer : LocalityId) (error : TransportError)
  | shutdownComplete
  deriving DecidableEq, Repr

/-- The tickets some events complete. -/
def completedTickets (events : List TransportEvent) : List SendTicket :=
  events.filterMap fun
    | .localSendComplete ticket => some ticket
    | _ => none

/-- The parcels some events hand out. -/
def incomingParcels (events : List TransportEvent) : List Parcel :=
  events.filterMap fun
    | .incoming parcel => some parcel
    | _ => none

/-- The tickets some events resolve, with or without success. -/
def resolvedTickets (events : List TransportEvent) : List SendTicket :=
  events.filterMap fun
    | .localSendComplete ticket => some ticket
    | .sendFailed ticket _ => some ticket
    | _ => none

@[simp] theorem incomingParcels_append (first second : List TransportEvent) :
    incomingParcels (first ++ second) = incomingParcels first ++ incomingParcels second :=
  List.filterMap_append

@[simp] theorem resolvedTickets_append (first second : List TransportEvent) :
    resolvedTickets (first ++ second) = resolvedTickets first ++ resolvedTickets second :=
  List.filterMap_append

theorem incomingParcels_map (parcels : List Parcel) :
    incomingParcels (parcels.map .incoming) = parcels := by
  induction parcels with
  | nil => rfl
  | cons parcel rest ih =>
    rw [List.map_cons]
    exact congrArg (parcel :: ·) ih

/-- `TransportError::from`. -/
def fromProtocol {α : Type} : Except ProtocolError α → Except TransportError α
  | .ok value => .ok value
  | .error error => .error (.protocol error)

/-- `usize::MAX`. -/
def usizeMax : Nat := u64Bound - 1

/-- `Submission`. -/
structure Submission where
  ticket : SendTicket
  parcel : Parcel
  reservedBytes : Nat
  deriving DecidableEq, Repr

/-- The entry `counts[slot(peer, channel)]`, or any other table kept for each
    channel of each peer. -/
abbrev PerChannel (α : Type) := Nat → Channel → α

/-- A table with one entry replaced. -/
def PerChannel.set {α : Type} (table : PerChannel α) (peer : Nat) (channel : Channel) (value : α) :
    PerChannel α :=
  fun p c => if p = peer ∧ c = channel then value else table p c

@[simp] theorem PerChannel.set_same {α : Type} (table : PerChannel α) (peer : Nat)
    (channel : Channel) (value : α) : table.set peer channel value peer channel = value :=
  if_pos ⟨rfl, rfl⟩

theorem PerChannel.set_of_ne {α : Type} {table : PerChannel α} {peer p : Nat}
    {channel c : Channel} {value : α} (h : ¬(p = peer ∧ c = channel)) :
    table.set peer channel value p c = table p c :=
  if_neg h

/-- `[Channel::Control, Channel::Action, Channel::Bulk]`. -/
def channels : List Channel := [.control, .action, .bulk]

/-- `SubmissionState`; its traffic counters only feed the statistics. -/
structure SubmissionState where
  limits : ProtocolLimits
  nextTicket : Nat
  closed : Bool
  counts : PerChannel Nat
  bytes : Nat → Nat

namespace SubmissionState

/-- `SubmissionState::new`. -/
def new (limits : ProtocolLimits) : SubmissionState where
  limits := limits
  nextTicket := 1
  closed := false
  counts := fun _ _ => 0
  bytes := fun _ => 0

/-- The bytes a channel may bring a peer's total to. -/
def byteLimit (limits : ProtocolLimits) : Channel → Nat
  | .control => limits.maxInflightBytesPerPeer
  | _ => limits.maxInflightBytesPerPeer - limits.controlReservedBytesPerPeer

/-- `SubmissionState::release`. -/
def release (shared : SubmissionState) (peer : Nat) (channel : Channel) (bytes : Nat) :
    SubmissionState :=
  { shared with
    bytes := Function.update shared.bytes peer (shared.bytes peer - bytes)
    counts := shared.counts.set peer channel (shared.counts peer channel - 1) }

/-- `SubmissionState::close`. -/
def close (shared : SubmissionState) : SubmissionState := { shared with closed := true }

/-- `SubmissionState::reserve`. A refused reservation leaves the state as it was. -/
def reserve (shared : SubmissionState) (peer : Nat) (channel : Channel) (bytes : Nat) :
    Except TransportError (SendTicket × SubmissionState) :=
  if shared.closed then .error .shutdown
  else if shared.limits.maxQueuedParcelsPerPeer < shared.counts peer channel + 1 then
    .error (.queueFull channel shared.limits.maxQueuedParcelsPerPeer)
  else if byteLimit shared.limits channel < shared.bytes peer + bytes then
    .error (.byteLimit (shared.bytes peer + bytes) (byteLimit shared.limits channel))
  else if shared.nextTicket = 0 ∨ shared.nextTicket = u64Bound - 1 then
    .error (.peer "send ticket overflow")
  else
    .ok (⟨shared.nextTicket⟩,
      { shared with
        nextTicket := shared.nextTicket + 1
        counts := shared.counts.set peer channel (shared.counts peer channel + 1)
        bytes := Function.update shared.bytes peer (shared.bytes peer + bytes) })

/-- `SubmissionState::outstanding_count`. -/
def outstandingCount (shared : SubmissionState) (members : Nat) : Nat :=
  ((List.range members).map fun peer =>
    (channels.map fun channel => shared.counts peer channel).sum).sum

/-- What a reservation that was granted did. -/
theorem reserve_ok {shared after : SubmissionState} {peer bytes : Nat} {channel : Channel}
    {ticket : SendTicket} (h : shared.reserve peer channel bytes = .ok (ticket, after)) :
    shared.closed = false ∧ ticket = ⟨shared.nextTicket⟩ ∧
      shared.counts peer channel + 1 ≤ shared.limits.maxQueuedParcelsPerPeer ∧
      after = { shared with
        nextTicket := shared.nextTicket + 1
        counts := shared.counts.set peer channel (shared.counts peer channel + 1)
        bytes := Function.update shared.bytes peer (shared.bytes peer + bytes) } := by
  unfold reserve at h
  split at h
  · cases h
  rename_i hclosed
  split at h
  · cases h
  rename_i hqueued
  split at h
  · cases h
  split at h
  · cases h
  cases h
  exact ⟨Bool.eq_false_iff.mpr hclosed, rfl, not_lt.mp hqueued, rfl⟩

/-- What is reserved is exactly what the queues of the streams hold. -/
structure Holds (shared : SubmissionState) (held : PerChannel (List Nat)) : Prop where
  bytes : ∀ peer, shared.bytes peer =
    (held peer .control).sum + (held peer .action).sum + (held peer .bulk).sum
  counts : ∀ peer channel, shared.counts peer channel = (held peer channel).length

variable {shared after : SubmissionState} {held now : PerChannel (List Nat)}

/-- The order in which a stream holds its reservations does not matter. -/
theorem Holds.perm (h : shared.Holds held)
    (hheld : ∀ peer channel, (now peer channel).Perm (held peer channel))
    (hbytes : after.bytes = shared.bytes) (hcounts : after.counts = shared.counts) :
    after.Holds now := by
  constructor
  · intro peer
    rw [hbytes, h.bytes, (hheld peer .control).sum_nat, (hheld peer .action).sum_nat,
      (hheld peer .bulk).sum_nat]
  · intro peer channel
    rw [hcounts, h.counts, (hheld peer channel).length_eq]

/-- One stream changed, and its reservations with it. -/
theorem Holds.update (h : shared.Holds held) (peer : Nat) (channel : Channel) (total : Nat)
    (hheld : ∀ p c, ¬(p = peer ∧ c = channel) → now p c = held p c)
    (hbytes : after.bytes = Function.update shared.bytes peer total)
    (htotal : total + (held peer channel).sum = shared.bytes peer + (now peer channel).sum)
    (hcounts : after.counts = shared.counts.set peer channel (now peer channel).length) :
    after.Holds now := by
  constructor
  · intro p
    by_cases hp : p = peer
    · subst hp
      have hold := h.bytes p
      rw [hbytes, Function.update_self]
      cases channel with
      | control =>
        rw [hheld p .action (by simp), hheld p .bulk (by simp)]
        omega
      | action =>
        rw [hheld p .control (by simp), hheld p .bulk (by simp)]
        omega
      | bulk =>
        rw [hheld p .control (by simp), hheld p .action (by simp)]
        omega
    · rw [hbytes, Function.update_of_ne hp, h.bytes p, hheld p .control (fun hc => hp hc.1),
        hheld p .action (fun hc => hp hc.1), hheld p .bulk (fun hc => hp hc.1)]
  · intro p c
    rw [hcounts]
    by_cases hpc : p = peer ∧ c = channel
    · obtain ⟨rfl, rfl⟩ := hpc
      rw [PerChannel.set_same]
    · rw [PerChannel.set_of_ne hpc, hheld p c hpc, h.counts p c]

/-- A reservation granted, with what holds it put into its queue. -/
theorem Holds.reserve (h : shared.Holds held) {peer bytes : Nat} {channel : Channel}
    {ticket : SendTicket} (hreserve : shared.reserve peer channel bytes = .ok (ticket, after))
    (hheld : ∀ p c, ¬(p = peer ∧ c = channel) → now p c = held p c)
    (hnow : (now peer channel).Perm (bytes :: held peer channel)) : after.Holds now := by
  obtain ⟨-, -, -, rfl⟩ := reserve_ok hreserve
  apply h.update peer channel (shared.bytes peer + bytes) hheld rfl
  · rw [hnow.sum_nat, List.sum_cons]
    omega
  · rw [hnow.length_eq, List.length_cons, h.counts]

/-- A reservation given back, with what held it gone from its queue. -/
theorem Holds.release (h : shared.Holds held) (peer : Nat) (channel : Channel) {reserved : Nat}
    (hheld : ∀ p c, ¬(p = peer ∧ c = channel) → now p c = held p c)
    (hnow : (held peer channel).Perm (reserved :: now peer channel)) :
    (shared.release peer channel reserved).Holds now := by
  have htotal := h.bytes peer
  have hsum : (held peer channel).sum = reserved + (now peer channel).sum := by
    rw [hnow.sum_nat, List.sum_cons]
  have hle : (held peer channel).sum ≤ shared.bytes peer := by
    cases channel <;> omega
  apply h.update peer channel (shared.bytes peer - reserved) hheld rfl
  · omega
  · rw [SubmissionState.release, h.counts, hnow.length_eq, List.length_cons, Nat.add_sub_cancel]

theorem mem_channels (channel : Channel) : channel ∈ channels := by
  cases channel <;> decide

/-- Nothing is held where nothing is outstanding. -/
theorem Holds.idle (h : shared.Holds held) {members : Nat}
    (hcount : shared.outstandingCount members = 0) {peer : Nat} (hpeer : peer < members)
    (channel : Channel) : held peer channel = [] := by
  have hsums := List.sum_eq_zero_iff_forall_eq_nat.mp hcount
    _ (List.mem_map.mpr ⟨peer, List.mem_range.mpr hpeer, rfl⟩)
  have hzero := List.sum_eq_zero_iff_forall_eq_nat.mp hsums _
    (List.mem_map.mpr ⟨channel, mem_channels channel, rfl⟩)
  rw [h.counts] at hzero
  exact List.eq_nil_of_length_eq_zero hzero

end SubmissionState

/-! ## Streams

A driver services every channel of every member. -/

theorem nodup_channelStreams (members : Nat) :
    (channels.flatMap fun channel =>
      (List.range members).map fun peer => (channel, peer)).Nodup := by
  refine List.nodup_flatMap.mpr ⟨?_, ?_⟩
  · intro channel _
    exact List.nodup_range.map fun first second h => (Prod.mk.inj h).2
  · have hchannels : channels.Nodup := by decide
    refine List.Pairwise.imp ?_ hchannels
    intro first second hne stream hfirst hsecond
    obtain ⟨_, -, rfl⟩ := List.mem_map.mp hfirst
    obtain ⟨_, -, hsame⟩ := List.mem_map.mp hsecond
    exact hne (Prod.mk.inj hsame).1.symm

theorem mem_channelStreams {members : Nat} {stream : Channel × Nat} :
    stream ∈ (channels.flatMap fun channel =>
      (List.range members).map fun peer => (channel, peer)) ↔ stream.2 < members := by
  constructor
  · intro hmem
    obtain ⟨channel, -, hpair⟩ := List.mem_flatMap.mp hmem
    obtain ⟨peer, hpeer, rfl⟩ := List.mem_map.mp hpair
    exact List.mem_range.mp hpeer
  · intro hpeer
    exact List.mem_flatMap.mpr ⟨stream.1, SubmissionState.mem_channels stream.1,
      List.mem_map.mpr ⟨stream.2, List.mem_range.mpr hpeer, rfl⟩⟩

/-- `member_index`. -/
def memberIndex (locality : LocalityId) (count : Nat) : Except TransportError Nat :=
  if locality.get.toNat < count then .ok locality.get.toNat
  else .error (.invalidDestination locality)

theorem memberIndex_ok {locality : LocalityId} {count index : Nat}
    (h : memberIndex locality count = .ok index) :
    index = locality.get.toNat ∧ index < count := by
  unfold memberIndex at h
  split at h
  · rename_i hlt
    cases h
    exact ⟨rfl, hlt⟩
  · cases h

/-! ## Submitting -/

/-- What a handle knows of its own side. -/
structure Handle where
  localId : LocalityId
  runId : RunId
  members : Nat
  limits : ProtocolLimits

/-- `try_send` of a handle whose backend puts `overhead` bytes in front of a parcel: the
    parcel is checked, its bytes are reserved, and it joins the queue of its stream. -/
def Handle.submit (handle : Handle) (overhead : Nat) (shared : SubmissionState)
    (receivers : PerChannel (List Submission)) (parcel : Parcel) :
    SubmissionState × PerChannel (List Submission) × Except TransportError SendTicket :=
  if parcel.runId ≠ handle.runId then (shared, receivers, .error (.protocol .runMismatch))
  else if parcel.source ≠ handle.localId then
    (shared, receivers, .error (.peer "parcel source does not match handle"))
  else
    match memberIndex parcel.destination handle.members with
    | .error error => (shared, receivers, .error error)
    | .ok peer =>
      if parcel.destination = handle.localId then
        (shared, receivers, .error (.invalidDestination parcel.destination))
      else
        match parcel.validate handle.limits, parcel.encodedLen with
        | .error error, _ => (shared, receivers, .error (.protocol error))
        | .ok (), .error error => (shared, receivers, .error (.protocol error))
        | .ok (), .ok encoded =>
          if u64Bound ≤ encoded + overhead then
            (shared, receivers, .error (.byteLimit usizeMax handle.limits.maxInflightBytesPerPeer))
          else
            match shared.reserve peer parcel.channel (encoded + overhead) with
            | .error error => (shared, receivers, .error error)
            | .ok (ticket, reserved) =>
              -- A permit that is dropped uncommitted gives its reservation back.
              if handle.limits.maxQueuedParcelsPerPeer ≤ (receivers peer parcel.channel).length then
                (reserved.release peer parcel.channel (encoded + overhead), receivers,
                  .error (.queueFull parcel.channel handle.limits.maxQueuedParcelsPerPeer))
              else
                (reserved,
                  receivers.set peer parcel.channel (receivers peer parcel.channel ++
                    [⟨ticket, parcel, encoded + overhead⟩]), .ok ticket)

/-- What `try_send` checked of a parcel it took. -/
structure Handle.Sent (handle : Handle) (overhead : Nat) (parcel : Parcel) : Prop where
  runId : parcel.runId = handle.runId
  source : parcel.source = handle.localId
  member : parcel.destination.get.toNat < handle.members
  remote : parcel.destination ≠ handle.localId
  fits : parcel.Fits handle.limits
  bound : parcel.frame + overhead < u64Bound

variable {handle : Handle} {overhead : Nat} {shared after : SubmissionState}
  {receivers queues : PerChannel (List Submission)} {parcel : Parcel}

/-- What an accepted send did: a reservation, and one more submission at the end of the
    queue of its stream. -/
theorem Handle.submit_ok {ticket : SendTicket}
    (h : handle.submit overhead shared receivers parcel = (after, queues, .ok ticket)) :
    handle.Sent overhead parcel ∧
      shared.reserve parcel.destination.get.toNat parcel.channel (parcel.frame + overhead) =
        .ok (ticket, after) ∧
      queues = receivers.set parcel.destination.get.toNat parcel.channel
        (receivers parcel.destination.get.toNat parcel.channel ++
          [⟨ticket, parcel, parcel.frame + overhead⟩]) := by
  unfold Handle.submit at h
  split at h
  · cases h
  rename_i hrun
  split at h
  · cases h
  rename_i hsource
  split at h
  · cases h
  rename_i peer hmember
  obtain ⟨rfl, hpeer⟩ := memberIndex_ok hmember
  split at h
  · cases h
  rename_i hremote
  split at h
  · cases h
  · cases h
  rename_i encoded hvalid hencoded
  have hfits := Parcel.validate_iff.mp hvalid
  obtain ⟨rfl, -⟩ := Parcel.encodedLen_ok hencoded
  split at h
  · cases h
  rename_i hbound
  split at h
  · cases h
  rename_i reserved hreserve
  split at h
  · cases h
  cases h
  exact ⟨⟨not_not.mp hrun, not_not.mp hsource, hpeer, hremote, hfits, not_le.mp hbound⟩, hreserve,
    rfl⟩

/-- A refused send leaves the queues and the reservations as they were. -/
theorem Handle.submit_error {error : TransportError}
    (h : handle.submit overhead shared receivers parcel = (after, queues, .error error)) :
    queues = receivers ∧ after.bytes = shared.bytes ∧ after.counts = shared.counts ∧
      shared.nextTicket ≤ after.nextTicket := by
  unfold Handle.submit at h
  repeat' split at h
  all_goals
    first
    | (cases h; exact ⟨rfl, rfl, rfl, Nat.le_refl _⟩)
    | skip
  · rename_i ticket reserved hreserve hfull
    obtain ⟨-, -, -, rfl⟩ := SubmissionState.reserve_ok hreserve
    cases h
    refine ⟨rfl, ?_, ?_, Nat.le_succ _⟩
    · simp [SubmissionState.release]
    · funext p c
      unfold SubmissionState.release
      simp only [PerChannel.set]
      split
      · rename_i hsame
        simp [hsame.1, hsame.2]
      · rfl
  · cases h

end Hataori.Transport
