import Hataori.Lib.Maps
import Hataori.Transport.Accounts
import Hataori.Transport.Mpi

/-!
# The books of the MPI driver

The MPI driver obeys the laws of the accounting: a ticket is outstanding while its
submission is queued or its chunks are being sent.
-/

namespace Hataori.Transport

open Hataori.Runtime Lib.Maps

namespace MpiDriver

/-- The reservations a stream holds. -/
def held (driver : MpiDriver) (peer : Nat) (channel : Channel) : List Nat :=
  (driver.receivers peer channel).map Submission.reservedBytes ++
    (driver.outbound peer channel).toList.map Outbound.reservedBytes

/-- The tickets a stream has not resolved. -/
def unresolved (driver : MpiDriver) (stream : Channel × Nat) : List SendTicket :=
  (driver.receivers stream.2 stream.1).map Submission.ticket ++
    (driver.outbound stream.2 stream.1).toList.map Outbound.ticket

/-- The tickets a driver has not resolved. -/
def outstanding (driver : MpiDriver) : List SendTicket :=
  driver.streams.flatMap driver.unresolved

/-- What is reserved is exactly what the streams hold. -/
abbrev Kempt (driver : MpiDriver) : Prop := driver.shared.Holds driver.held

/-- Only one stream of a driver changed. -/
structure OnlyStream (before after : MpiDriver) (peer : Nat) (channel : Channel) : Prop where
  receivers : ∀ p c, ¬(p = peer ∧ c = channel) → after.receivers p c = before.receivers p c
  outbound : ∀ p c, ¬(p = peer ∧ c = channel) → after.outbound p c = before.outbound p c

variable {driver after : MpiDriver} {peer : Nat} {channel : Channel}

theorem OnlyStream.held (h : OnlyStream driver after peer channel) (p : Nat) (c : Channel)
    (hother : ¬(p = peer ∧ c = channel)) : after.held p c = driver.held p c := by
  rw [MpiDriver.held, MpiDriver.held, h.receivers p c hother, h.outbound p c hother]

/-- One stream changed, and what it resolved is gone from what is outstanding. -/
theorem OnlyStream.outstanding (h : OnlyStream driver after peer channel)
    (hmembers : after.members = driver.members) (hpeer : peer < driver.members)
    (resolved : List SendTicket)
    (hstream : (driver.unresolved (channel, peer)).Perm
      (resolved ++ after.unresolved (channel, peer))) :
    driver.outstanding.Perm (resolved ++ after.outstanding) := by
  have hstreams : after.streams = driver.streams := by rw [streams, streams, hmembers]
  rw [MpiDriver.outstanding, MpiDriver.outstanding, hstreams]
  apply flatMap_perm_of_entry (nodup_channelStreams _) (mem_channelStreams.mpr hpeer) _ hstream
  rintro ⟨c, p⟩ hne
  have hother : ¬(p = peer ∧ c = channel) := fun heq => hne (by rw [heq.1, heq.2])
  simp only [unresolved, h.receivers p c hother, h.outbound p c hother]

/-! ## What a drive does to the books -/

/-- What the services of a drive that started from `first` have done: `events` were handed
    over and `extra` put aside, and together they resolve what is no longer outstanding. -/
structure Driven (first : MpiDriver) (driver : MpiDriver) (events : List TransportEvent) :
    Prop where
  kempt : driver.Kempt
  members : driver.members = first.members
  failed : driver.failed = first.failed
  nextTicket : driver.shared.nextTicket = first.shared.nextTicket
  books : ∃ extra, driver.pendingEvents = first.pendingEvents ++ extra ∧
    incomingParcels extra = [] ∧
    first.outstanding.Perm
      (resolvedTickets events ++ (resolvedTickets extra ++ driver.outstanding))

variable {first : MpiDriver} {events : List TransportEvent}

theorem Driven.refl (h : driver.Kempt) : Driven driver driver [] :=
  ⟨h, rfl, rfl, rfl, [], (List.append_nil _).symm, rfl, .refl _⟩

/-- A service that leaves the streams alone and resolves nothing. -/
theorem Driven.receive (h : Driven first driver events) (reassembly : PerChannel (Option Reassembly))
    {more : List TransportEvent} (hmore : resolvedTickets more = []) :
    Driven first { driver with reassembly := reassembly } (events ++ more) := by
  refine ⟨h.kempt, h.members, h.failed, h.nextTicket, ?_⟩
  obtain ⟨extra, hextra, hnone, hperm⟩ := h.books
  refine ⟨extra, hextra, hnone, ?_⟩
  rw [resolvedTickets_append, hmore, List.append_nil]
  exact hperm

/-- One stream went on to its next chunk or its next parcel, and resolved nothing. -/
theorem Driven.advance (h : Driven first driver events) (hpeer : peer < first.members)
    (receivers : PerChannel (List Submission)) (outbound : PerChannel (Option Outbound))
    (honly : OnlyStream driver { driver with receivers := receivers, outbound := outbound } peer
      channel)
    (hheld : (MpiDriver.held { driver with receivers := receivers, outbound := outbound } peer
      channel).Perm (driver.held peer channel))
    (htickets : (driver.unresolved (channel, peer)).Perm (MpiDriver.unresolved
      { driver with receivers := receivers, outbound := outbound } (channel, peer))) :
    Driven first { driver with receivers := receivers, outbound := outbound } events := by
  obtain ⟨extra, hextra, hnone, hperm⟩ := h.books
  refine ⟨?_, h.members, h.failed, h.nextTicket, extra, hextra, hnone, ?_⟩
  · refine h.kempt.perm (fun p c => ?_) rfl rfl
    by_cases hother : p = peer ∧ c = channel
    · rw [hother.1, hother.2]
      exact hheld
    · rw [honly.held p c hother]
  · rw [← h.members] at hpeer
    have hout := honly.outstanding rfl hpeer [] htickets
    exact hperm.trans (List.Perm.append_left _ (List.Perm.append_left _ hout))

/-- One stream resolved a ticket: its reservation is given back, and the event handed over
    or put aside. -/
theorem Driven.resolve (h : Driven first driver events) (hpeer : peer < first.members)
    (receivers : PerChannel (List Submission)) (outbound : PerChannel (Option Outbound))
    {reserved : Nat} {ticket : SendTicket} (budget : Nat) {event : TransportEvent}
    (honly : OnlyStream driver
      { driver with
        receivers := receivers
        outbound := outbound
        shared := driver.shared.release peer channel reserved } peer channel)
    (hheld : (driver.held peer channel).Perm (reserved :: MpiDriver.held
      { driver with receivers := receivers, outbound := outbound } peer channel))
    (htickets : (driver.unresolved (channel, peer)).Perm (ticket :: MpiDriver.unresolved
      { driver with receivers := receivers, outbound := outbound } (channel, peer)))
    (hevent : resolvedTickets [event] = [ticket]) (hincoming : incomingParcels [event] = []) :
    Driven first
      (emit { driver with
        receivers := receivers
        outbound := outbound
        shared := driver.shared.release peer channel reserved } budget event).1
      (events ++ (emit { driver with
        receivers := receivers
        outbound := outbound
        shared := driver.shared.release peer channel reserved } budget event).2) := by
  have hkempt : MpiDriver.Kempt { driver with
      receivers := receivers
      outbound := outbound
      shared := driver.shared.release peer channel reserved } :=
    h.kempt.release peer channel honly.held hheld
  have hpeer' : peer < driver.members := by rw [h.members]; exact hpeer
  have hout := honly.outstanding rfl hpeer' [ticket] htickets
  obtain ⟨extra, hextra, hnone, hperm⟩ := h.books
  unfold emit
  split
  · refine ⟨hkempt, h.members, h.failed, h.nextTicket, extra ++ [], ?_, ?_, ?_⟩
    · rw [List.append_nil]
      exact hextra
    · rw [List.append_nil]
      exact hnone
    · apply resolved_trans hperm
      rw [List.append_nil, hevent]
      exact hout
  · refine ⟨hkempt, h.members, h.failed, h.nextTicket, extra ++ [event], ?_, ?_, ?_⟩
    · dsimp only
      rw [hextra, List.append_assoc]
    · rw [incomingParcels_append, hnone, hincoming]
      rfl
    · apply resolved_trans hperm
      rw [List.nil_append, hevent]
      exact hout

theorem resolvedTickets_receiveChunk (driver : MpiDriver) (channel : Channel) (source : Nat)
    (chunk : List UInt8) : resolvedTickets (driver.receiveChunk channel source chunk).2.1 = [] := by
  unfold receiveChunk
  dsimp only
  repeat' split
  all_goals rfl

theorem receiveChunk_fst (driver : MpiDriver) (channel : Channel) (source : Nat)
    (chunk : List UInt8) : (driver.receiveChunk channel source chunk).1 =
      { driver with
        reassembly := driver.reassembly.set source channel
          (acceptChunk (driver.reassembly source channel) chunk driver.limits).1 } := by
  unfold receiveChunk
  dsimp only
  repeat' split
  all_goals rfl

theorem Driven.receiveAll (h : Driven first driver events) (channel : Channel) (budget : Nat)
    (arrived : List (Nat × List UInt8)) :
    Driven first (driver.receiveAll channel budget arrived).1
      (events ++ (driver.receiveAll channel budget arrived).2.1) := by
  induction arrived generalizing driver events budget with
  | nil => simpa [MpiDriver.receiveAll] using h
  | cons message rest ih =>
    obtain ⟨source, chunk⟩ := message
    rw [MpiDriver.receiveAll]
    split
    · have hchunk : Driven first (driver.receiveChunk channel source chunk).1
          (events ++ (driver.receiveChunk channel source chunk).2.1) := by
        rw [receiveChunk_fst]
        exact h.receive _ (driver.resolvedTickets_receiveChunk channel source chunk)
      generalize driver.receiveChunk channel source chunk = step at hchunk ⊢
      obtain ⟨next, more, result⟩ := step
      cases result with
      | error error => exact hchunk
      | ok done =>
        have hrest := ih hchunk (budget - more.length)
        dsimp only at hrest ⊢
        rw [List.append_assoc] at hrest
        generalize next.receiveAll channel (budget - more.length) rest = step at hrest ⊢
        obtain ⟨last, later, result⟩ := step
        cases result <;> exact hrest
    · simpa using h

/-! ## Sending -/

/-- The parcel on its way keeps the ticket and the reservation of its submission. -/
theorem Outbound.new_ok {submission : Submission} {limits : ProtocolLimits} {outbound : Outbound}
    (h : Outbound.new submission limits = .ok outbound) :
    outbound.ticket = submission.ticket ∧ outbound.reservedBytes = submission.reservedBytes := by
  unfold Outbound.new at h
  split at h
  · cases h
  split at h
  · cases h
  · cases h
    exact ⟨rfl, rfl⟩

theorem Outbound.new_error {submission : Submission} {limits : ProtocolLimits}
    {ticket : SendTicket} {reserved : Nat} {error : TransportError}
    (h : Outbound.new submission limits = .error (ticket, reserved, error)) :
    ticket = submission.ticket ∧ reserved = submission.reservedBytes := by
  unfold Outbound.new at h
  split at h
  · cases h
    exact ⟨rfl, rfl⟩
  split at h
  · cases h
    exact ⟨rfl, rfl⟩
  · cases h

theorem Outbound.nextChunk_ok {outbound next : Outbound} {chunk : List UInt8}
    (h : outbound.nextChunk = .ok (chunk, next)) :
    next.ticket = outbound.ticket ∧ next.reservedBytes = outbound.reservedBytes := by
  unfold Outbound.nextChunk at h
  split at h
  · cases h
  · cases h
    exact ⟨rfl, rfl⟩

theorem Driven.take (h : Driven first driver events) (hpeer : peer < first.members)
    (channel : Channel) (budget : Nat) :
    Driven first (driver.takeSubmission peer channel budget).1
      (events ++ (driver.takeSubmission peer channel budget).2) := by
  unfold takeSubmission
  split
  · simpa using h
  · simpa using h
  rename_i submission rest houtbound hreceivers
  dsimp only
  split
  · rename_i outbound hnew
    obtain ⟨hticket, hreserved⟩ := Outbound.new_ok hnew
    rw [List.append_nil]
    apply h.advance hpeer
    · exact ⟨fun p c hne => PerChannel.set_of_ne hne, fun p c hne => PerChannel.set_of_ne hne⟩
    · simp only [held, houtbound, hreceivers, PerChannel.set_same, Option.toList_some,
        Option.toList_none, List.map_cons, List.map_nil, List.append_nil, hreserved]
      exact List.perm_append_singleton _ _
    · simp only [unresolved, houtbound, hreceivers, PerChannel.set_same, Option.toList_some,
        Option.toList_none, List.map_cons, List.map_nil, List.append_nil, hticket]
      exact (List.perm_append_singleton _ _).symm
  · rename_i ticket reserved error hnew
    obtain ⟨rfl, rfl⟩ := Outbound.new_error hnew
    refine h.resolve hpeer _ driver.outbound budget ?_ ?_ ?_ rfl rfl
    · exact ⟨fun p c hne => PerChannel.set_of_ne hne, fun _ _ _ => rfl⟩
    · simp [held, hreceivers]
    · simp [unresolved, hreceivers]

theorem Driven.send (h : Driven first driver events) (hpeer : peer < first.members)
    (channel : Channel) (budget : Nat) :
    Driven first (driver.sendChunk peer channel budget).1
      (events ++ (driver.sendChunk peer channel budget).2.1) := by
  unfold sendChunk
  split
  · simpa using h
  rename_i outbound houtbound
  split
  · simpa using h
  rename_i chunk next hnext
  obtain ⟨hticket, hreserved⟩ := Outbound.nextChunk_ok hnext
  split
  · refine h.resolve hpeer driver.receivers _ budget ?_ ?_ ?_ rfl rfl
    · exact ⟨fun _ _ _ => rfl, fun p c hne => PerChannel.set_of_ne hne⟩
    · simp only [held, houtbound, PerChannel.set_same, Option.toList_some, Option.toList_none,
        List.map_cons, List.map_nil, List.append_nil, hreserved]
      exact List.perm_append_singleton _ _
    · simp only [unresolved, houtbound, PerChannel.set_same, Option.toList_some,
        Option.toList_none, List.map_cons, List.map_nil, List.append_nil, hticket]
      exact List.perm_append_singleton _ _
  · rw [List.append_nil]
    apply h.advance hpeer
    · exact ⟨fun _ _ _ => rfl, fun p c hne => PerChannel.set_of_ne hne⟩
    · simp [held, houtbound, hreserved]
    · simp [unresolved, houtbound, hticket]

/-! ## A whole drive -/

theorem Driven.serve (h : Driven first driver events) (round : MpiRound) (budget : Nat)
    {service : Service} (hservice : service ∈ first.services) :
    Driven first (driver.serve round budget service).1
      (events ++ (driver.serve round budget service).2.1) := by
  cases service with
  | receive channel => exact h.receiveAll channel budget (round.arrived channel)
  | send channel peer =>
    have hpeer : peer < first.members := by
      simp [services] at hservice
      exact hservice.2
    rw [MpiDriver.serve]
    split
    · simpa using h
    have htake := h.take hpeer channel budget
    generalize driver.takeSubmission peer channel budget = step at htake ⊢
    obtain ⟨next, taken⟩ := step
    have hsend := htake.send hpeer channel (budget - taken.length)
    dsimp only at hsend ⊢
    rw [List.append_assoc] at hsend
    exact hsend

theorem Driven.driveFrom (maxEvents : Nat) (round : MpiRound) {services : List Service}
    (hservices : ∀ service ∈ services, service ∈ first.services) (moved : Bool)
    (h : Driven first driver events) :
    Driven first (MpiDriver.driveFrom maxEvents round services driver events moved).1
      (MpiDriver.driveFrom maxEvents round services driver events moved).2.1 := by
  induction services generalizing driver events moved with
  | nil => exact h
  | cons service rest ih =>
    have hserve := h.serve round (maxEvents - events.length) (hservices _ List.mem_cons_self)
    rw [MpiDriver.driveFrom]
    generalize driver.serve round (maxEvents - events.length) service = step at hserve ⊢
    obtain ⟨next, more, result⟩ := step
    cases result with
    | error error => exact hserve
    | ok stepped =>
      exact ih (fun service hmem => hservices service (List.mem_cons_of_mem _ hmem)) _ hserve

theorem driven_drive (h : driver.Kempt) (maxEvents : Nat) (round : MpiRound) :
    Driven driver (driver.drive maxEvents round).1 (driver.drive maxEvents round).2.1 := by
  unfold drive
  split
  · exact Driven.driveFrom maxEvents round (fun _ hmem => hmem) false (.refl h)
  · exact .refl h

/-! ## The laws -/

/-- What an accepted send did. -/
theorem trySend_ok {parcel : Parcel} {ticket : SendTicket}
    (h : driver.trySend parcel = (after, .ok ticket)) :
    parcel.destination.get.toNat < driver.members ∧ ∃ shared,
      driver.shared.reserve parcel.destination.get.toNat parcel.channel (parcel.frame + 0) =
        .ok (ticket, shared) ∧
      after = { driver with
        shared := shared
        receivers := driver.receivers.set parcel.destination.get.toNat parcel.channel
          (driver.receivers parcel.destination.get.toNat parcel.channel ++
            [⟨ticket, parcel, parcel.frame + 0⟩]) } := by
  unfold trySend at h
  cases hsubmit : driver.handle.submit 0 driver.shared driver.receivers parcel with
  | mk shared rest =>
    obtain ⟨receivers, result⟩ := rest
    rw [hsubmit] at h
    cases h
    obtain ⟨hsent, hreserve, rfl⟩ := Handle.submit_ok hsubmit
    exact ⟨hsent.member, shared, hreserve, rfl⟩

/-- A refused send leaves the queues and the reservations as they were. -/
theorem trySend_error {parcel : Parcel} {error : TransportError}
    (h : driver.trySend parcel = (after, .error error)) :
    ∃ shared, after = { driver with shared := shared } ∧ shared.bytes = driver.shared.bytes ∧
      shared.counts = driver.shared.counts ∧ driver.shared.nextTicket ≤ shared.nextTicket := by
  unfold trySend at h
  cases hsubmit : driver.handle.submit 0 driver.shared driver.receivers parcel with
  | mk shared rest =>
    obtain ⟨receivers, result⟩ := rest
    rw [hsubmit] at h
    cases h
    obtain ⟨rfl, hbytes, hcounts, hnext⟩ := Handle.submit_error hsubmit
    exact ⟨shared, rfl, hbytes, hcounts, hnext⟩

theorem Kempt.sent (h : driver.Kempt) {parcel : Parcel} {ticket : SendTicket}
    (hsend : driver.trySend parcel = (after, .ok ticket)) :
    after.Kempt ∧ after.pendingEvents = driver.pendingEvents ∧
      after.outstanding.Perm (ticket :: driver.outstanding) ∧
      ticket.get = driver.shared.nextTicket ∧
      after.shared.nextTicket = driver.shared.nextTicket + 1 := by
  obtain ⟨hpeer, shared, hreserve, hafter⟩ := trySend_ok hsend
  obtain ⟨-, hticket, -, hshared⟩ := SubmissionState.reserve_ok hreserve
  have hmembers : after.members = driver.members := by rw [hafter]
  -- Read backwards, the send takes the new ticket off its stream.
  have honly : OnlyStream after driver parcel.destination.get.toNat parcel.channel :=
    ⟨fun p c hne => by rw [hafter]; exact (PerChannel.set_of_ne hne).symm,
      fun _ _ _ => by rw [hafter]⟩
  have hstream : (after.unresolved (parcel.channel, parcel.destination.get.toNat)).Perm
      ([ticket] ++ driver.unresolved (parcel.channel, parcel.destination.get.toNat)) := by
    rw [hafter]
    simp only [unresolved, PerChannel.set_same, List.map_append, List.map_cons, List.map_nil,
      List.append_assoc, List.singleton_append]
    exact List.perm_middle
  refine ⟨?_, by rw [hafter], ?_, by rw [hticket], by rw [hafter, hshared]⟩
  · rw [hafter]
    apply h.reserve hreserve
    · intro p c hne
      simp [held, PerChannel.set_of_ne hne]
    · simp only [held, PerChannel.set_same, List.map_append, List.map_cons, List.map_nil,
        List.append_assoc, List.singleton_append]
      exact List.perm_middle
  · exact honly.outstanding hmembers.symm (by rw [hmembers]; exact hpeer) [ticket] hstream

/-- Nothing is outstanding when a flush has nothing left to send. -/
theorem Kempt.drained (h : driver.Kempt) (hempty : driver.outboundEmpty = true) :
    driver.outstanding = [] := by
  unfold outboundEmpty at hempty
  rw [Bool.and_eq_true] at hempty
  have hcount : driver.shared.outstandingCount driver.members = 0 := by simpa using hempty.1
  apply List.flatMap_eq_nil_iff.mpr
  rintro ⟨channel, peer⟩ hstream
  have hheld := h.idle hcount (mem_channelStreams.mp hstream) channel
  obtain ⟨hreceivers, houtbound⟩ := List.append_eq_nil_iff.mp hheld
  rw [unresolved, List.map_eq_nil_iff.mp hreceivers, List.map_eq_nil_iff.mp houtbound]
  rfl

/-- The MPI driver obeys the laws of the accounting. -/
theorem lawful : backend.Lawful Kempt outstanding fun driver => driver.shared.nextTicket where
  refused driver parcel after error h hsend := by
    obtain ⟨shared, rfl, hbytes, hcounts, hnext⟩ := trySend_error hsend
    exact ⟨h.perm (fun _ _ => .refl _) hbytes hcounts, rfl, .refl _, hnext⟩
  sent driver parcel after ticket h hsend := h.sent hsend
  drive driver maxEvents round after events moved h hdrive := by
    have hdriven := driven_drive h maxEvents round
    rw [show driver.drive maxEvents round = (after, events, .ok moved) from hdrive] at hdriven
    exact ⟨hdriven.kempt, hdriven.nextTicket, hdriven.books⟩
  withPending driver events h := ⟨h, rfl, rfl, rfl⟩
  close driver h := ⟨h.perm (fun _ _ => .refl _) rfl rfl, rfl, rfl, rfl⟩
  stop driver h hout := ⟨h.perm (fun _ _ => .refl _) rfl rfl, rfl, hout, rfl⟩
  drained driver h := h.drained
  failedSend _ _ := rfl
  failedPending _ _ := rfl
  failedDrive driver maxEvents round h := (driven_drive h maxEvents round).failed
  failedClose _ := rfl
  failedStop _ := rfl
  stopFailed _ _ := rfl
  fail _ _ := rfl

end MpiDriver

end Hataori.Transport
