import Hataori.Lib.Maps
import Hataori.Transport.Accounts
import Hataori.Transport.Drive

/-!
# The books of the TCP driver

The TCP driver obeys the laws of the accounting: a ticket is outstanding while its
submission is queued or its frame is being written, and each service of a stream resolves
exactly the tickets it takes off.
-/

namespace Hataori.Transport

open Hataori.Runtime Lib.Maps

namespace TcpDriver

/-- The tickets a stream has not resolved. -/
def unresolved (driver : TcpDriver) (stream : Channel × Nat) : List SendTicket :=
  (driver.receivers stream.2 stream.1).map Submission.ticket ++
    (driver.peers stream.2 stream.1).writes.map WriteFrame.ticket

/-- The tickets a driver has not resolved. -/
def outstanding (driver : TcpDriver) : List SendTicket :=
  driver.streams.flatMap driver.unresolved

/-- Reservations match the queues, and only members have any. -/
structure Kempt (driver : TcpDriver) : Prop where
  reserved : driver.Reserved
  members : ∀ peer channel, driver.members ≤ peer →
    driver.receivers peer channel = [] ∧ (driver.peers peer channel).writes = []

variable {driver after : TcpDriver} {peer : Nat} {channel : Channel}

/-- One stream changed, and what it resolved is gone from what is outstanding. -/
theorem OnlyStream.outstanding (h : OnlyStream driver after peer channel)
    (hmembers : after.members = driver.members) (hpeer : peer < driver.members)
    {resolved : List SendTicket}
    (hstream : (driver.unresolved (channel, peer)).Perm
      (resolved ++ after.unresolved (channel, peer))) :
    driver.outstanding.Perm (resolved ++ after.outstanding) := by
  have hstreams : after.streams = driver.streams := by rw [streams, streams, hmembers]
  rw [TcpDriver.outstanding, TcpDriver.outstanding, hstreams]
  apply flatMap_perm_of_entry (nodup_channelStreams _) (mem_channelStreams.mpr hpeer) _ hstream
  rintro ⟨c, p⟩ hne
  have hother : ¬(p = peer ∧ c = channel) := fun heq => hne (by rw [heq.1, heq.2])
  simp only [unresolved, h.receivers p c hother, h.peers p c hother]

theorem OnlyStream.kempt (h : OnlyStream driver after peer channel) (hkempt : driver.Kempt)
    (hreserved : after.Reserved) (hmembers : after.members = driver.members)
    (hpeer : peer < driver.members) : after.Kempt := by
  refine ⟨hreserved, fun p c hp => ?_⟩
  rw [hmembers] at hp
  have hother : ¬(p = peer ∧ c = channel) := fun heq => by omega
  rw [h.receivers p c hother, h.peers p c hother]
  exact hkempt.members p c hp

theorem resolvedTickets_parse (identity : ConnectionIdentity) (limits : ProtocolLimits)
    (budget : Nat) (read : List UInt8) :
    resolvedTickets (parse identity limits budget read).2.1 = [] := by
  induction budget generalizing read with
  | zero => rfl
  | succ budget ih =>
    rw [parse]
    dsimp only
    repeat' split
    all_goals
      first
      | rfl
      | exact ih _

theorem resolvedTickets_serviceRead (stream : StreamIo) (identity : ConnectionIdentity)
    (limits : ProtocolLimits) (budget : Nat) (answers : List ReadResult) :
    resolvedTickets (serviceRead stream identity limits budget answers).2.1 = [] := by
  unfold serviceRead
  split
  · rfl
  split
  · rfl
  · rename_i read moved _
    have hparse := resolvedTickets_parse identity limits budget read
    generalize parse identity limits budget read = step at hparse ⊢
    obtain ⟨left, events, result⟩ := step
    cases result <;> exact hparse

/-- A write resolves the ticket of the frame it takes off the queue. -/
theorem serviceWrite_tickets (stream : StreamIo) (peer : Nat) (channel : Channel)
    (shared : SubmissionState) (answer : WriteResult) :
    (serviceWrite stream peer channel shared answer).2.1.nextTicket = shared.nextTicket ∧
      stream.writes.map WriteFrame.ticket =
        resolvedTickets (serviceWrite stream peer channel shared answer).2.2.1 ++
          (serviceWrite stream peer channel shared answer).1.writes.map WriteFrame.ticket := by
  unfold serviceWrite
  cases hwrites : stream.writes with
  | nil => exact ⟨rfl, by rw [hwrites]; rfl⟩
  | cons frame later =>
    cases answer with
    | wouldBlock => exact ⟨rfl, by rw [hwrites]; rfl⟩
    | failed message => exact ⟨rfl, by rw [hwrites]; rfl⟩
    | wrote written =>
      dsimp only
      split
      · exact ⟨rfl, by rw [hwrites]; rfl⟩
      split
      · exact ⟨rfl, rfl⟩
      · exact ⟨rfl, rfl⟩

/-! ## What a drive does to the books -/

/-- What the services of a drive that started from `first` have done: `events` were handed
    over and `extra` put aside, and together they resolve what is no longer outstanding. -/
structure Driven (first : TcpDriver) (driver : TcpDriver) (events : List TransportEvent) :
    Prop where
  kempt : driver.Kempt
  fixed : driver.fixed = first.fixed
  nextTicket : driver.shared.nextTicket = first.shared.nextTicket
  books : ∃ extra, driver.pendingEvents = first.pendingEvents ++ extra ∧
    incomingParcels extra = [] ∧
    first.outstanding.Perm
      (resolvedTickets events ++ (resolvedTickets extra ++ driver.outstanding))

/-- One service more: it changed one stream, and resolved the tickets it took off it. -/
theorem Driven.service {first : TcpDriver} {events : List TransportEvent}
    (h : Driven first driver events) (after : TcpDriver) {more : List TransportEvent}
    (aside : List TransportEvent) (hstream : OnlyStream driver after peer channel)
    (hpeer : peer < driver.members) (hreserved : after.Reserved)
    (hfixed : after.fixed = driver.fixed)
    (hnext : after.shared.nextTicket = driver.shared.nextTicket)
    (hpending : after.pendingEvents = driver.pendingEvents ++ aside)
    (haside : incomingParcels aside = [])
    (htickets : (driver.unresolved (channel, peer)).Perm
      (resolvedTickets (more ++ aside) ++ after.unresolved (channel, peer))) :
    Driven first after (events ++ more) := by
  have hmembers : after.members = driver.members := congrArg (fun fixed => fixed.2.2.1) hfixed
  obtain ⟨extra, hextra, hnone, hperm⟩ := h.books
  refine ⟨hstream.kempt h.kempt hreserved hmembers hpeer, hfixed.trans h.fixed,
    hnext.trans h.nextTicket, extra ++ aside, ?_, ?_, ?_⟩
  · rw [hpending, hextra, List.append_assoc]
  · rw [incomingParcels_append, hnone, haside]
    rfl
  · exact resolved_trans hperm (hstream.outstanding hmembers hpeer htickets)

theorem Driven.take {first : TcpDriver} {events : List TransportEvent}
    (h : Driven first driver events) (hpeer : peer < driver.members) (channel : Channel)
    (budget : Nat) :
    Driven first (driver.takeSubmission peer channel budget).1
      (events ++ (driver.takeSubmission peer channel budget).2.1) := by
  have hreserved := h.kempt.reserved.take peer channel budget
  have hfixed := driver.fixed_takeSubmission peer channel budget
  rcases driver.takeSubmission_cases peer channel budget with
    hsame | ⟨submission, later, hqueue, ⟨frame, hencode, htaken⟩ | ⟨error, -, htaken, hevents⟩⟩
  · rw [hsame]
    simpa using h
  · obtain ⟨rfl, -, -⟩ := encodeSubmission_ok hencode
    rw [htaken] at hreserved hfixed ⊢
    refine h.service _ [] ⟨fun p c hne => PerChannel.set_of_ne hne,
      fun p c hne => PerChannel.set_of_ne hne⟩ hpeer hreserved hfixed rfl
      (List.append_nil _).symm rfl ?_
    simp only [unresolved, hqueue, PerChannel.set_same, List.map_append, List.map_cons,
      List.map_nil]
    rw [← List.append_assoc (later.map _)]
    exact (List.perm_append_singleton _ _).symm
  · rw [htaken] at hreserved hfixed ⊢
    rw [hevents]
    refine h.service _ (if 0 < budget then [] else [.sendFailed submission.ticket error])
      ⟨fun p c hne => PerChannel.set_of_ne hne, fun _ _ _ => rfl⟩ hpeer hreserved hfixed rfl rfl
      (by split <;> rfl) ?_
    have hresolved : resolvedTickets ((if 0 < budget then [.sendFailed submission.ticket error]
        else []) ++ (if 0 < budget then [] else [.sendFailed submission.ticket error])) =
        [submission.ticket] := by
      split <;> rfl
    rw [hresolved]
    simp [unresolved, hqueue]

theorem Driven.write {first : TcpDriver} {events : List TransportEvent}
    (h : Driven first driver events) (hpeer : peer < driver.members) (channel : Channel)
    (answer : WriteResult) :
    Driven first (driver.writeStream peer channel answer).1
      (events ++ (driver.writeStream peer channel answer).2.1) := by
  obtain ⟨hnext, htickets⟩ :=
    serviceWrite_tickets (driver.peers peer channel) peer channel driver.shared answer
  refine h.service _ [] ⟨fun _ _ _ => rfl, fun p c hne => PerChannel.set_of_ne hne⟩ hpeer
    (h.kempt.reserved.write peer channel answer) rfl hnext (List.append_nil _).symm rfl ?_
  simp only [unresolved, writeStream, setStream, PerChannel.set_same, htickets, List.append_nil]
  rw [← List.append_assoc, ← List.append_assoc]
  exact List.perm_append_comm.append_right _

theorem Driven.read {first : TcpDriver} {events : List TransportEvent}
    (h : Driven first driver events) (hpeer : peer < driver.members) (channel : Channel)
    (budget : Nat) (answers : List ReadResult) :
    Driven first (driver.readStream peer channel budget answers).1
      (events ++ (driver.readStream peer channel budget answers).2.1) := by
  refine h.service _ [] ⟨fun _ _ _ => rfl, fun p c hne => PerChannel.set_of_ne hne⟩ hpeer
    (h.kempt.reserved.read peer channel budget answers) rfl rfl (List.append_nil _).symm rfl ?_
  simp only [unresolved, readStream, setStream, PerChannel.set_same, serviceRead_writes,
    List.append_nil, resolvedTickets_serviceRead, List.nil_append]
  exact .refl _

theorem kept_driven (first : TcpDriver) : Kept first.members (Driven first) := by
  have hmembers : ∀ {driver events}, Driven first driver events →
      driver.members = first.members :=
    fun h => congrArg (fun fixed => fixed.2.2.1) h.fixed
  exact ⟨fun _ _ _ _ _ h hpeer _ => h.take (by rw [hmembers h]; exact hpeer) _ _,
    fun _ _ _ _ _ h hpeer => h.write (by rw [hmembers h]; exact hpeer) _ _,
    fun _ _ _ _ _ _ h hpeer => h.read (by rw [hmembers h]; exact hpeer) _ _ _⟩

theorem driven_drive (h : driver.Kempt) (maxEvents : Nat) (round : Round) :
    Driven driver (driver.drive maxEvents round).1 (driver.drive maxEvents round).2.1 := by
  have hstart : Driven driver driver [] :=
    ⟨h, rfl, rfl, [], (List.append_nil _).symm, rfl, .refl _⟩
  exact @Kept.drive _ driver [] (kept_driven driver) maxEvents round hstart

theorem failed_takeSubmission (driver : TcpDriver) (peer : Nat) (channel : Channel) (budget : Nat) :
    (driver.takeSubmission peer channel budget).1.failed = driver.failed := by
  unfold takeSubmission
  dsimp only
  repeat' split
  all_goals rfl

theorem failed_drive (driver : TcpDriver) (maxEvents : Nat) (round : Round) :
    (driver.drive maxEvents round).1.failed = driver.failed := by
  have hkept : Kept driver.members fun state (_ : List TransportEvent) =>
      state.failed = driver.failed :=
    ⟨fun state _ peer channel budget h _ _ =>
      (state.failed_takeSubmission peer channel budget).trans h,
      fun _ _ _ _ _ h _ => h, fun _ _ _ _ _ _ h _ => h⟩
  exact @Kept.drive _ driver [] hkept maxEvents round rfl

theorem failed_trySend (driver : TcpDriver) (parcel : Parcel) :
    (driver.trySend parcel).1.failed = driver.failed := rfl

/-! ## The laws -/

theorem Kempt.sent (h : driver.Kempt) {parcel : Parcel} {ticket : SendTicket}
    (hsend : driver.trySend parcel = (after, .ok ticket)) :
    after.Kempt ∧ after.pendingEvents = driver.pendingEvents ∧
      after.outstanding.Perm (ticket :: driver.outstanding) ∧
      ticket.get = driver.shared.nextTicket ∧
      after.shared.nextTicket = driver.shared.nextTicket + 1 := by
  have hreserved := h.reserved.trySend parcel
  rw [hsend] at hreserved
  obtain ⟨hsent, shared, hreserve, hafter⟩ := trySend_ok hsend
  obtain ⟨-, hticket, -, hshared⟩ := SubmissionState.reserve_ok hreserve
  have hmembers : after.members = driver.members := by rw [hafter]
  have honly : OnlyStream driver after parcel.destination.get.toNat parcel.channel :=
    ⟨fun p c hne => by rw [hafter]; exact PerChannel.set_of_ne hne, fun _ _ _ => by rw [hafter]⟩
  have hback : OnlyStream after driver parcel.destination.get.toNat parcel.channel :=
    ⟨fun p c hne => (honly.receivers p c hne).symm, fun p c hne => (honly.peers p c hne).symm⟩
  refine ⟨honly.kempt h hreserved hmembers hsent.member, by rw [hafter], ?_, by rw [hticket],
    by rw [hafter, hshared]⟩
  have hstream : (after.unresolved (parcel.channel, parcel.destination.get.toNat)).Perm
      ([ticket] ++ driver.unresolved (parcel.channel, parcel.destination.get.toNat)) := by
    rw [hafter]
    simp only [unresolved, PerChannel.set_same, List.map_append, List.map_cons, List.map_nil,
      List.append_assoc, List.singleton_append]
    exact List.perm_middle
  exact hback.outstanding hmembers.symm (by rw [hmembers]; exact hsent.member) hstream

theorem Kempt.congr (h : driver.Kempt) (hmembers : after.members = driver.members)
    (hreceivers : after.receivers = driver.receivers) (hpeers : after.peers = driver.peers)
    (hbytes : after.shared.bytes = driver.shared.bytes)
    (hcounts : after.shared.counts = driver.shared.counts) :
    after.Kempt ∧ after.outstanding = driver.outstanding := by
  have hheld : after.held = driver.held := by
    funext peer channel
    rw [held, held, hreceivers, hpeers]
  refine ⟨⟨?_, ?_⟩, ?_⟩
  · exact h.reserved.perm (fun peer channel => by rw [hheld]) hbytes hcounts
  · rw [hmembers, hreceivers, hpeers]
    exact h.members
  · have hunresolved : after.unresolved = driver.unresolved := by
      funext stream
      rw [unresolved, unresolved, hreceivers, hpeers]
    rw [outstanding, outstanding, streams, streams, hmembers, hunresolved]

/-- Nothing is outstanding when a flush has nothing left to write. -/
theorem Kempt.drained (h : driver.Kempt) (hempty : driver.outboundEmpty = true) :
    driver.outstanding = [] := by
  unfold outboundEmpty at hempty
  rw [Bool.and_eq_true] at hempty
  have hcount : driver.shared.outstandingCount driver.members = 0 := by simpa using hempty.2
  apply List.flatMap_eq_nil_iff.mpr
  rintro ⟨channel, peer⟩ hstream
  have hheld := h.reserved.idle hcount (mem_channelStreams.mp hstream) channel
  obtain ⟨hreceivers, hwrites⟩ := List.append_eq_nil_iff.mp hheld
  rw [unresolved, List.map_eq_nil_iff.mp hreceivers, List.map_eq_nil_iff.mp hwrites]
  rfl

/-- A driver with nothing outstanding holds nothing. -/
theorem Kempt.idle (h : driver.Kempt) (hout : driver.outstanding = []) (peer : Nat)
    (channel : Channel) :
    driver.receivers peer channel = [] ∧ (driver.peers peer channel).writes = [] := by
  by_cases hpeer : peer < driver.members
  · have hstream := List.flatMap_eq_nil_iff.mp hout (channel, peer) (mem_channelStreams.mpr hpeer)
    obtain ⟨hreceivers, hwrites⟩ := List.append_eq_nil_iff.mp hstream
    exact ⟨List.map_eq_nil_iff.mp hreceivers, List.map_eq_nil_iff.mp hwrites⟩
  · exact h.members peer channel (not_lt.mp hpeer)

theorem Kempt.stop (h : driver.Kempt) (hout : driver.outstanding = []) :
    (backend.stop driver none).Kempt ∧ (backend.stop driver none).outstanding = [] := by
  have hidle := h.idle hout
  refine ⟨⟨h.reserved.perm (fun peer channel => ?_) rfl rfl, fun peer channel _ => ?_⟩, ?_⟩
  · simp [held, backend, hidle peer channel]
  · exact ⟨(hidle peer channel).1, rfl⟩
  · apply List.flatMap_eq_nil_iff.mpr
    rintro ⟨channel, peer⟩ -
    simp [unresolved, backend, hidle peer channel]

/-- The TCP driver obeys the laws of the accounting. -/
theorem lawful : backend.Lawful Kempt outstanding fun driver => driver.shared.nextTicket where
  refused driver parcel after error h hsend := by
    obtain ⟨shared, rfl, hbytes, hcounts, hnext⟩ := trySend_error hsend
    obtain ⟨hkempt, hout⟩ := @Kempt.congr driver { driver with shared := shared } h rfl rfl rfl
      hbytes hcounts
    exact ⟨hkempt, rfl, by rw [hout], hnext⟩
  sent driver parcel after ticket h hsend := h.sent hsend
  drive driver maxEvents round after events moved h hdrive := by
    have hdriven := driven_drive h maxEvents round
    rw [show driver.drive maxEvents round = (after, events, .ok moved) from hdrive] at hdriven
    exact ⟨hdriven.kempt, hdriven.nextTicket, hdriven.books⟩
  withPending driver events h := by
    obtain ⟨hkempt, hout⟩ := @Kempt.congr driver (backend.withPending driver events) h rfl rfl rfl
      rfl rfl
    exact ⟨hkempt, rfl, hout, rfl⟩
  close driver h := by
    obtain ⟨hkempt, hout⟩ := @Kempt.congr driver (backend.close driver) h rfl rfl rfl rfl rfl
    exact ⟨hkempt, rfl, hout, rfl⟩
  stop driver h hout := by
    obtain ⟨hkempt, hempty⟩ := h.stop hout
    exact ⟨hkempt, rfl, hempty, rfl⟩
  drained driver h := h.drained
  failedSend := failed_trySend
  failedPending _ _ := rfl
  failedDrive driver maxEvents round _ := driver.failed_drive maxEvents round
  failedClose _ := rfl
  failedStop _ := rfl
  stopFailed _ _ := rfl
  fail _ _ := rfl

end TcpDriver

end Hataori.Transport
