import Hataori.Transport.Framing

/-!
# What a drive does

A call of `drive` is a sequence of services of single streams. Whatever the three
services keep, every call of the driver keeps as far as it drives.
-/

namespace Hataori.Transport

open Hataori.Runtime

namespace TcpDriver

/-! ## Rules for what a drive does -/

/-- What holds of a driver and the events it handed over, and is kept by each of the
    three services of a stream. -/
structure Kept (members : Nat) (inv : TcpDriver → List TransportEvent → Prop) : Prop where
  take : ∀ driver events peer channel budget, inv driver events → peer < members →
    peer ≠ driver.localId.get.toNat →
    inv (driver.takeSubmission peer channel budget).1
      (events ++ (driver.takeSubmission peer channel budget).2.1)
  write : ∀ driver events peer channel answer, inv driver events → peer < members →
    inv (driver.writeStream peer channel answer).1
      (events ++ (driver.writeStream peer channel answer).2.1)
  read : ∀ driver events peer channel budget answers, inv driver events → peer < members →
    inv (driver.readStream peer channel budget answers).1
      (events ++ (driver.readStream peer channel budget answers).2.1)

namespace Kept

variable {members : Nat} {inv : TcpDriver → List TransportEvent → Prop} {driver : TcpDriver}
  {events : List TransportEvent}

theorem writeWithin (h : Kept members inv) (hinv : inv driver events) {peer : Nat}
    (hpeer : peer < members) (channel : Channel) (budget : Nat) (answer : WriteResult) :
    inv (driver.writeWithin peer channel budget answer).1
      (events ++ (driver.writeWithin peer channel budget answer).2.1) := by
  unfold TcpDriver.writeWithin
  split
  · exact h.write _ _ _ _ _ hinv hpeer
  · simpa using hinv

theorem readWithin (h : Kept members inv) (hinv : inv driver events) {peer : Nat}
    (hpeer : peer < members) (channel : Channel) (budget : Nat) (answers : List ReadResult) :
    inv (driver.readWithin peer channel budget answers).1
      (events ++ (driver.readWithin peer channel budget answers).2.1) := by
  unfold TcpDriver.readWithin
  split
  · exact h.read _ _ _ _ _ _ hinv hpeer
  · simpa using hinv

theorem turn (h : Kept members inv) (hinv : inv driver events) {peer : Nat}
    (hpeer : peer < members) (hlocal : peer ≠ driver.localId.get.toNat) (channel : Channel)
    (budget : Nat) (answers : Answers) :
    inv (driver.turn channel peer budget answers).1
      (events ++ (driver.turn channel peer budget answers).2.1) := by
  have htake := h.take _ _ _ channel budget hinv hpeer hlocal
  rw [TcpDriver.turn]
  generalize driver.takeSubmission peer channel budget = step at htake ⊢
  obtain ⟨first, taken, queued⟩ := step
  have hwrite := h.writeWithin htake hpeer channel (budget - taken.length) answers.write
  dsimp only at hwrite ⊢
  rw [List.append_assoc] at hwrite
  generalize first.writeWithin peer channel (budget - taken.length) answers.write = step
    at hwrite ⊢
  obtain ⟨second, written, result⟩ := step
  cases result with
  | error error => exact hwrite
  | ok wrote =>
    have hread := h.readWithin hwrite hpeer channel (budget - (taken ++ written).length)
      answers.reads
    dsimp only at hread ⊢
    rw [List.append_assoc] at hread
    generalize second.readWithin peer channel (budget - (taken ++ written).length) answers.reads =
      step at hread ⊢
    obtain ⟨third, received, result⟩ := step
    cases result with
    | error error => exact hread
    | ok moved => exact hread

theorem driveFrom (h : Kept members inv) (maxEvents : Nat) (round : Round)
    {pairs : List (Channel × Nat)} (hpairs : ∀ pair ∈ pairs, pair.2 < members) (before : Bool)
    {earlier : List TransportEvent} (hinv : inv driver (earlier ++ events)) :
    inv (TcpDriver.driveFrom maxEvents round pairs driver events before).1
      (earlier ++ (TcpDriver.driveFrom maxEvents round pairs driver events before).2.1) := by
  induction pairs generalizing driver events before with
  | nil => exact hinv
  | cons pair rest ih =>
    obtain ⟨channel, peer⟩ := pair
    have hrest : ∀ pair ∈ rest, pair.2 < members :=
      fun pair hmem => hpairs pair (List.mem_cons_of_mem _ hmem)
    rw [TcpDriver.driveFrom]
    by_cases hlocal : peer = driver.localId.get.toNat
    · rw [if_pos hlocal]
      exact ih hrest before hinv
    · rw [if_neg hlocal]
      have hpeer : peer < members := hpairs _ List.mem_cons_self
      have hturn := h.turn hinv hpeer hlocal channel (maxEvents - events.length)
        (round peer channel)
      rw [List.append_assoc] at hturn
      generalize driver.turn channel peer (maxEvents - events.length) (round peer channel) = step
        at hturn ⊢
      obtain ⟨next, more, result⟩ := step
      cases result with
      | error error => exact hturn
      | ok stepped => exact ih hrest _ hturn

/-- The drive rule: what every service keeps, a whole drive keeps. -/
theorem drive (h : Kept driver.members inv) (maxEvents : Nat) (round : Round)
    (hinv : inv driver events) :
    inv (driver.drive maxEvents round).1 (events ++ (driver.drive maxEvents round).2.1) := by
  rw [TcpDriver.drive]
  cases memberIndex driver.localId driver.members with
  | error error => simpa using hinv
  | ok index =>
    apply h.driveFrom maxEvents round _ false
    · simpa using hinv
    · intro pair hmem
      obtain ⟨channel, -, hpair⟩ := List.mem_flatMap.mp hmem
      obtain ⟨peer, hpeer, rfl⟩ := List.mem_map.mp hpair
      exact List.mem_range.mp hpeer

end Kept

/-! ## Accepted sends -/

/-- What `try_send` checked of a parcel it took. -/
structure Sent (driver : TcpDriver) (parcel : Parcel) : Prop where
  runId : parcel.runId = driver.runId
  source : parcel.source = driver.localId
  member : parcel.destination.get.toNat < driver.members
  remote : parcel.destination ≠ driver.localId
  fits : parcel.Fits driver.limits

/-- What an accepted send did. -/
theorem trySend_ok {driver after : TcpDriver} {parcel : Parcel} {ticket : SendTicket}
    (h : driver.trySend parcel = (after, .ok ticket)) :
    driver.Sent parcel ∧ ∃ shared,
      driver.shared.reserve parcel.destination.get.toNat parcel.channel
        (parcel.frame + lengthBytes) = .ok (ticket, shared) ∧
      after = { driver with
        shared := shared
        receivers := driver.receivers.set parcel.destination.get.toNat parcel.channel
          (driver.receivers parcel.destination.get.toNat parcel.channel ++
            [⟨ticket, parcel, parcel.frame + lengthBytes⟩]) } := by
  unfold trySend at h
  cases hsubmit : driver.handle.submit lengthBytes driver.shared driver.receivers parcel with
  | mk shared rest =>
    obtain ⟨receivers, result⟩ := rest
    rw [hsubmit] at h
    cases h
    obtain ⟨hsent, hreserve, rfl⟩ := Handle.submit_ok hsubmit
    exact ⟨⟨hsent.runId, hsent.source, hsent.member, hsent.remote, hsent.fits⟩, shared, hreserve,
      rfl⟩

/-- A refused send leaves the queues and the reservations as they were. -/
theorem trySend_error {driver after : TcpDriver} {parcel : Parcel} {error : TransportError}
    (h : driver.trySend parcel = (after, .error error)) :
    ∃ shared, after = { driver with shared := shared } ∧ shared.bytes = driver.shared.bytes ∧
      shared.counts = driver.shared.counts ∧ driver.shared.nextTicket ≤ shared.nextTicket := by
  unfold trySend at h
  cases hsubmit : driver.handle.submit lengthBytes driver.shared driver.receivers parcel with
  | mk shared rest =>
    obtain ⟨receivers, result⟩ := rest
    rw [hsubmit] at h
    cases h
    obtain ⟨rfl, hbytes, hcounts, hnext⟩ := Handle.submit_error hsubmit
    exact ⟨shared, rfl, hbytes, hcounts, hnext⟩

/-! ## What one service does -/

/-- Only one stream of a driver changed. -/
structure OnlyStream (before after : TcpDriver) (peer : Nat) (channel : Channel) : Prop where
  receivers : ∀ p c, ¬(p = peer ∧ c = channel) → after.receivers p c = before.receivers p c
  peers : ∀ p c, ¬(p = peer ∧ c = channel) → after.peers p c = before.peers p c

/-- What `drive` does with the submission queue of a stream. -/
theorem takeSubmission_cases (driver : TcpDriver) (peer : Nat) (channel : Channel) (budget : Nat) :
    driver.takeSubmission peer channel budget = (driver, [], false) ∨
      ∃ submission later, driver.receivers peer channel = submission :: later ∧
        ((∃ frame, encodeSubmission submission driver.limits = .ok frame ∧
            driver.takeSubmission peer channel budget =
              ({ driver with
                  receivers := driver.receivers.set peer channel later
                  peers := driver.peers.set peer channel
                    { driver.peers peer channel with
                      writes := (driver.peers peer channel).writes ++ [frame] } }, [], true)) ∨
          ∃ error, encodeSubmission submission driver.limits =
              .error (submission.ticket, submission.reservedBytes, error) ∧
            (driver.takeSubmission peer channel budget).1 =
              { driver with
                receivers := driver.receivers.set peer channel later
                shared := driver.shared.release peer channel submission.reservedBytes
                pendingEvents := driver.pendingEvents ++
                  if 0 < budget then [] else [.sendFailed submission.ticket error] } ∧
            (driver.takeSubmission peer channel budget).2.1 =
              if 0 < budget then [.sendFailed submission.ticket error] else []) := by
  unfold takeSubmission
  dsimp only
  by_cases hroom : (driver.peers peer channel).writes.length <
      driver.limits.maxQueuedParcelsPerPeer
  · rw [if_pos hroom]
    cases hqueue : driver.receivers peer channel with
    | nil => exact Or.inl rfl
    | cons submission later =>
      refine Or.inr ⟨submission, later, rfl, ?_⟩
      cases hencode : encodeSubmission submission driver.limits with
      | ok frame => exact Or.inl ⟨frame, rfl, by simp only [hencode]; rfl⟩
      | error failure =>
        obtain ⟨ticket, reserved, error⟩ := failure
        have hsame : ticket = submission.ticket ∧ reserved = submission.reservedBytes := by
          unfold encodeSubmission at hencode
          cases hparcel : encodeParcel submission.parcel driver.limits with
          | ok bytes =>
            rw [hparcel] at hencode
            cases hencode
          | error reason =>
            rw [hparcel] at hencode
            cases hencode
            exact ⟨rfl, rfl⟩
        obtain ⟨rfl, rfl⟩ := hsame
        refine Or.inr ⟨error, rfl, ?_⟩
        by_cases hbudget : 0 < budget
        · simp [hencode, hbudget]
        · simp [hencode, hbudget]
  · rw [if_neg hroom]
    exact Or.inl rfl

/-! ## Reservations -/

/-- The reservations a stream holds. -/
def held (driver : TcpDriver) (peer : Nat) (channel : Channel) : List Nat :=
  (driver.receivers peer channel).map Submission.reservedBytes ++
    (driver.peers peer channel).writes.map WriteFrame.reservedBytes

/-- What is reserved is exactly what the streams hold. -/
abbrev Reserved (driver : TcpDriver) : Prop := driver.shared.Holds driver.held

theorem Reserved.trySend {driver : TcpDriver} (h : driver.Reserved) (parcel : Parcel) :
    (driver.trySend parcel).1.Reserved := by
  cases hsend : driver.trySend parcel with
  | mk after result =>
    cases result with
    | error error =>
      obtain ⟨shared, rfl, hbytes, hcounts, -⟩ := trySend_error hsend
      exact h.perm (fun _ _ => .refl _) hbytes hcounts
    | ok ticket =>
      obtain ⟨-, shared, hreserve, rfl⟩ := trySend_ok hsend
      apply h.reserve hreserve
      · intro p c hne
        simp [held, PerChannel.set_of_ne hne]
      · simp only [held, PerChannel.set_same, List.map_append, List.map_cons, List.map_nil,
          List.append_assoc, List.singleton_append]
        exact List.perm_middle

theorem Reserved.take {driver : TcpDriver} (h : driver.Reserved) (peer : Nat) (channel : Channel)
    (budget : Nat) : (driver.takeSubmission peer channel budget).1.Reserved := by
  rcases driver.takeSubmission_cases peer channel budget with
    hsame | ⟨submission, later, hqueue, ⟨frame, hencode, htaken⟩ | ⟨error, -, htaken, -⟩⟩
  · rw [hsame]
    exact h
  · rw [htaken]
    obtain ⟨rfl, -, -⟩ := encodeSubmission_ok hencode
    refine h.perm (fun p c => ?_) rfl rfl
    by_cases hpc : p = peer ∧ c = channel
    · rw [hpc.1, hpc.2]
      simp only [held, PerChannel.set_same, hqueue, List.map_append, List.map_cons, List.map_nil]
      rw [← List.append_assoc, List.cons_append]
      exact List.perm_append_singleton _ _
    · simp [held, PerChannel.set_of_ne hpc]
  · rw [htaken]
    apply h.release peer channel
    · intro p c hpc
      simp [held, PerChannel.set_of_ne hpc]
    · simp [held, hqueue]

theorem Reserved.write {driver : TcpDriver} (h : driver.Reserved) (peer : Nat) (channel : Channel)
    (answer : WriteResult) : (driver.writeStream peer channel answer).1.Reserved := by
  have hkeep : Reserved { driver.setStream peer channel (driver.peers peer channel) with
      shared := driver.shared } := by
    refine h.perm (fun p c => ?_) rfl rfl
    by_cases hpc : p = peer ∧ c = channel
    · simp [held, setStream, hpc.1, hpc.2]
    · simp [held, setStream, PerChannel.set_of_ne hpc]
  unfold writeStream serviceWrite
  cases hwrites : (driver.peers peer channel).writes with
  | nil => exact hkeep
  | cons frame later =>
    cases answer with
    | wouldBlock => exact hkeep
    | failed message => exact hkeep
    | wrote written =>
      dsimp only
      by_cases hzero : written = 0
      · rw [if_pos hzero]
        exact hkeep
      rw [if_neg hzero]
      by_cases hlast : frame.offset + written = frame.bytes.length
      · rw [if_pos hlast]
        apply h.release peer channel
        · intro p c hpc
          simp [held, setStream, PerChannel.set_of_ne hpc]
        · simp only [held, setStream, PerChannel.set_same, hwrites, List.map_cons]
          exact List.perm_middle
      · rw [if_neg hlast]
        refine h.perm (fun p c => ?_) rfl rfl
        by_cases hpc : p = peer ∧ c = channel
        · simp [held, setStream, hpc.1, hpc.2, hwrites]
        · simp [held, setStream, PerChannel.set_of_ne hpc]

theorem serviceRead_writes (stream : StreamIo) (identity : ConnectionIdentity)
    (limits : ProtocolLimits) (budget : Nat) (answers : List ReadResult) :
    (serviceRead stream identity limits budget answers).1.writes = stream.writes := by
  unfold serviceRead
  repeat' split
  all_goals rfl

theorem Reserved.read {driver : TcpDriver} (h : driver.Reserved) (peer : Nat) (channel : Channel)
    (budget : Nat) (answers : List ReadResult) :
    (driver.readStream peer channel budget answers).1.Reserved := by
  refine h.perm (fun p c => ?_) rfl rfl
  by_cases hpc : p = peer ∧ c = channel
  · simp [held, readStream, setStream, hpc.1, hpc.2, serviceRead_writes]
  · simp [held, readStream, setStream, PerChannel.set_of_ne hpc]

/-! ## What no operation changes -/

/-- The fields `connect` fixes. -/
def fixed (driver : TcpDriver) : LocalityId × RunId × Nat × ProtocolLimits :=
  (driver.localId, driver.runId, driver.members, driver.limits)

variable (driver : TcpDriver)

theorem fixed_trySend (parcel : Parcel) : (driver.trySend parcel).1.fixed = driver.fixed := rfl

theorem fixed_takeSubmission (peer : Nat) (channel : Channel) (budget : Nat) :
    (driver.takeSubmission peer channel budget).1.fixed = driver.fixed := by
  unfold takeSubmission
  dsimp only
  repeat' split
  all_goals rfl

theorem fixed_drive (maxEvents : Nat) (round : Round) :
    (driver.drive maxEvents round).1.fixed = driver.fixed := by
  have hkept : Kept driver.members fun state (_ : List TransportEvent) =>
      state.fixed = driver.fixed :=
    ⟨fun state _ peer channel budget h _ _ => (state.fixed_takeSubmission peer channel budget).trans h,
      fun _ _ _ _ _ h _ => h, fun _ _ _ _ _ _ h _ => h⟩
  exact @Kept.drive _ driver [] hkept maxEvents round rfl

/-- No call changes what `connect` fixed. -/
theorem fixed_foldl (ops : List Op) : (ops.foldl apply driver).fixed = driver.fixed := by
  have hkeeps : backend.Keeps fun state => state.fixed = driver.fixed :=
    { trySend := fun state parcel h => (state.fixed_trySend parcel).trans h
      drive := fun state maxEvents round h => (state.fixed_drive maxEvents round).trans h
      fail := fun _ _ h => h
      withPending := fun _ _ h => h
      close := fun _ h => h
      stop := fun _ _ h => h }
  exact hkeeps.foldl rfl ops

end TcpDriver

end Hataori.Transport
