import Hataori.Transport.Bootstrap
import Hataori.Transport.Memory
import Hataori.Transport.Mpi

/-!
# Room for one parcel

What `try_send` answers for a valid parcel while nothing is outstanding toward its destination.
A channel other than control may take up what the control reserve leaves of the bytes in
flight, and each transport counts other bytes: TCP the encoded parcel and its length in front,
MPI the encoded parcel, the in-memory transport the payload.
-/

namespace Hataori.Transport

open Hataori.Runtime

/-- The answers that say there is no room. -/
def TransportError.isFull : TransportError → Bool
  | .queueFull _ _ => true
  | .byteLimit _ _ => true
  | _ => false

/-- Whether a call was refused for want of room. -/
def isFull {α : Type} : Except TransportError α → Bool
  | .ok _ => false
  | .error error => error.isFull

theorem memberIndex_not_full (locality : LocalityId) (count : Nat) :
    isFull (memberIndex locality count) = false := by
  unfold memberIndex
  split <;> rfl

theorem ProtocolLimits.validate_positive {limits found : ProtocolLimits}
    (h : limits.validate = .ok found) : 0 < limits.maxQueuedParcelsPerPeer := by
  unfold ProtocolLimits.validate at h
  split at h
  · cases h
  · omega

/-! ## The reservation -/

/-- Nothing is outstanding toward a peer: no reservation, and nothing in the queues to it. -/
structure SubmissionState.Idle (shared : SubmissionState)
    (receivers : PerChannel (List Submission)) (peer : Nat) : Prop where
  counts : ∀ channel, shared.counts peer channel = 0
  bytes : shared.bytes peer = 0
  queues : ∀ channel, receivers peer channel = []

/-- A first reservation is refused for want of room exactly when it is larger than the room. -/
theorem SubmissionState.reserve_full_iff {shared : SubmissionState} {peer bytes : Nat}
    {channel : Channel} (hqueued : 0 < shared.limits.maxQueuedParcelsPerPeer)
    (hcount : shared.counts peer channel = 0) (hbytes : shared.bytes peer = 0) :
    isFull (shared.reserve peer channel bytes) = true ↔
      shared.closed = false ∧ byteLimit shared.limits channel < bytes := by
  unfold SubmissionState.reserve
  rw [hcount, hbytes, Nat.zero_add, Nat.zero_add]
  cases shared.closed with
  | true => simp [isFull, TransportError.isFull]
  | false =>
    rw [if_neg Bool.false_ne_true, if_neg (Nat.not_lt.mpr hqueued)]
    by_cases hroom : byteLimit shared.limits channel < bytes
    · rw [if_pos hroom]
      simp [isFull, TransportError.isFull, hroom]
    · rw [if_neg hroom]
      split <;> simp [isFull, TransportError.isFull, hroom]

/-- A valid parcel that is refused is larger than the room there is for it. -/
theorem Handle.submit_full {handle : Handle} {overhead : Nat} {shared : SubmissionState}
    {receivers : PerChannel (List Submission)} {parcel : Parcel}
    (hlimits : shared.limits = handle.limits)
    (hidle : shared.Idle receivers parcel.destination.get.toNat)
    (hfits : parcel.Fits handle.limits)
    (hfull : isFull (handle.submit overhead shared receivers parcel).2.2 = true) :
    u64Bound ≤ parcel.frame + overhead ∨
      SubmissionState.byteLimit handle.limits parcel.channel < parcel.frame + overhead := by
  have hqueued := ProtocolLimits.validate_positive hfits.valid
  unfold Handle.submit at hfull
  rw [Parcel.validate_iff.mpr hfits, Parcel.encodedLen_eq hfits.bound] at hfull
  split at hfull
  · cases hfull
  split at hfull
  · cases hfull
  split at hfull
  · next error hmember =>
    have hnot := memberIndex_not_full parcel.destination handle.members
    rw [hmember] at hnot
    exact absurd hfull (Bool.eq_false_iff.mp hnot)
  next peer hmember =>
  obtain ⟨rfl, -⟩ := memberIndex_ok hmember
  split at hfull
  · cases hfull
  dsimp only at hfull
  split at hfull
  · next hwrap => exact .inl hwrap
  right
  have hreserve := @SubmissionState.reserve_full_iff shared parcel.destination.get.toNat
    (parcel.frame + overhead) parcel.channel (by rw [hlimits]; exact hqueued)
    (hidle.counts parcel.channel) hidle.bytes
  rw [hlimits] at hreserve
  split at hfull
  · next error hrefused =>
    rw [hrefused] at hreserve
    exact (hreserve.mp hfull).2
  · rw [hidle.queues, List.length_nil, if_neg (Nat.not_le.mpr hqueued)] at hfull
    cases hfull

/-! ## The limits stay those of the connection -/

theorem SubmissionState.foldl_release_limits {α : Type} (shared : SubmissionState)
    (release : SubmissionState → α → SubmissionState)
    (h : ∀ state item, (release state item).limits = state.limits) (items : List α) :
    (items.foldl release shared).limits = shared.limits := by
  induction items generalizing shared with
  | nil => rfl
  | cons item rest ih => exact (ih _).trans (h shared item)

theorem SubmissionState.reserve_limits {shared after : SubmissionState} {peer bytes : Nat}
    {channel : Channel} {ticket : SendTicket}
    (h : shared.reserve peer channel bytes = .ok (ticket, after)) : after.limits = shared.limits := by
  obtain ⟨-, -, -, rfl⟩ := SubmissionState.reserve_ok h
  rfl

theorem Handle.submit_limits (handle : Handle) (overhead : Nat) (shared : SubmissionState)
    (receivers : PerChannel (List Submission)) (parcel : Parcel) :
    (handle.submit overhead shared receivers parcel).1.limits = shared.limits := by
  unfold Handle.submit
  repeat' split
  all_goals first
    | rfl
    | next hreserve _ =>
      have hlimits := SubmissionState.reserve_limits hreserve
      exact hlimits

/-- The limits a driver checks parcels against and those its handles reserve under. -/
def TcpDriver.bounds (driver : TcpDriver) : ProtocolLimits × ProtocolLimits :=
  (driver.limits, driver.shared.limits)

namespace TcpDriver

variable (driver : TcpDriver)

theorem bounds_trySend (parcel : Parcel) : (driver.trySend parcel).1.bounds = driver.bounds :=
  congrArg (Prod.mk driver.limits) (Handle.submit_limits _ _ _ _ _)

theorem bounds_takeSubmission (peer : Nat) (channel : Channel) (budget : Nat) :
    (driver.takeSubmission peer channel budget).1.bounds = driver.bounds := by
  unfold takeSubmission
  dsimp only
  repeat' split
  all_goals rfl

theorem serviceWrite_limits (stream : StreamIo) (peer : Nat) (channel : Channel)
    (shared : SubmissionState) (answer : WriteResult) :
    (serviceWrite stream peer channel shared answer).2.1.limits = shared.limits := by
  unfold serviceWrite
  repeat' split
  all_goals rfl

theorem bounds_writeStream (peer : Nat) (channel : Channel) (answer : WriteResult) :
    (driver.writeStream peer channel answer).1.bounds = driver.bounds := by
  exact congrArg (Prod.mk driver.limits) (serviceWrite_limits _ peer channel driver.shared answer)

theorem bounds_drive (maxEvents : Nat) (round : Round) :
    (driver.drive maxEvents round).1.bounds = driver.bounds := by
  have hkept : Kept driver.members fun state (_ : List TransportEvent) =>
      state.bounds = driver.bounds :=
    ⟨fun state _ peer channel budget h _ _ =>
        (state.bounds_takeSubmission peer channel budget).trans h,
      fun state _ peer channel answer h _ => (state.bounds_writeStream peer channel answer).trans h,
      fun _ _ _ _ _ _ h _ => h⟩
  exact @Kept.drive _ driver [] hkept maxEvents round rfl

theorem bounds_fail (error : TransportError) : (driver.fail error).bounds = driver.bounds := by
  refine congrArg (Prod.mk driver.limits) ?_
  refine SubmissionState.foldl_release_limits _ _ (fun state stream => ?_) _
  exact SubmissionState.foldl_release_limits state
    (fun shared reserved => shared.release stream.2 stream.1 reserved) (fun _ _ => rfl) _

/-- No call changes the limits. -/
theorem bounds_foldl (ops : List Op) : (ops.foldl apply driver).bounds = driver.bounds := by
  have hkeeps : backend.Keeps fun state => state.bounds = driver.bounds :=
    { trySend := fun state parcel h => (state.bounds_trySend parcel).trans h
      drive := fun state maxEvents round h => (state.bounds_drive maxEvents round).trans h
      fail := fun state error h => (state.bounds_fail error).trans h
      withPending := fun _ _ h => h
      close := fun _ h => h
      stop := fun _ _ h => h }
  exact hkeeps.foldl rfl ops

end TcpDriver

/-- The limits a driver checks parcels against and those its handles reserve under. -/
def MpiDriver.bounds (driver : MpiDriver) : ProtocolLimits × ProtocolLimits :=
  (driver.limits, driver.shared.limits)

namespace MpiDriver

variable (driver : MpiDriver)

theorem bounds_trySend (parcel : Parcel) : (driver.trySend parcel).1.bounds = driver.bounds :=
  congrArg (Prod.mk driver.limits) (Handle.submit_limits _ _ _ _ _)

theorem bounds_emit (budget : Nat) (event : TransportEvent) :
    (driver.emit budget event).1.bounds = driver.bounds := by
  unfold emit
  split <;> rfl

theorem bounds_takeSubmission (peer : Nat) (channel : Channel) (budget : Nat) :
    (driver.takeSubmission peer channel budget).1.bounds = driver.bounds := by
  unfold takeSubmission
  dsimp only
  repeat' split
  all_goals first
    | rfl
    | exact bounds_emit _ _ _

theorem bounds_sendChunk (peer : Nat) (channel : Channel) (budget : Nat) :
    (driver.sendChunk peer channel budget).1.bounds = driver.bounds := by
  unfold sendChunk
  split
  · rfl
  split
  · rfl
  split
  · exact bounds_emit _ _ _
  · rfl

theorem bounds_receiveChunk (channel : Channel) (source : Nat) (chunk : List UInt8) :
    (driver.receiveChunk channel source chunk).1.bounds = driver.bounds := by
  unfold receiveChunk
  dsimp only
  repeat' split
  all_goals rfl

theorem bounds_receiveAll (channel : Channel) (budget : Nat) (chunks : List (Nat × List UInt8)) :
    (driver.receiveAll channel budget chunks).1.bounds = driver.bounds := by
  induction chunks generalizing driver budget with
  | nil => rfl
  | cons chunk rest ih =>
    obtain ⟨source, bytes⟩ := chunk
    have hchunk := driver.bounds_receiveChunk channel source bytes
    rw [receiveAll]
    split
    · generalize driver.receiveChunk channel source bytes = received at hchunk ⊢
      obtain ⟨after, events, result⟩ := received
      cases result with
      | error error => exact hchunk
      | ok _ =>
        have hrest := (ih after (budget - events.length)).trans hchunk
        dsimp only
        generalize after.receiveAll channel (budget - events.length) rest = found at hrest ⊢
        obtain ⟨last, more, result⟩ := found
        cases result with
        | error error => exact hrest
        | ok _ => exact hrest
    · rfl

theorem bounds_serve (round : MpiRound) (budget : Nat) (service : Service) :
    (driver.serve round budget service).1.bounds = driver.bounds := by
  cases service with
  | receive channel => exact driver.bounds_receiveAll channel budget _
  | send channel peer =>
    rw [serve]
    by_cases hlocal : peer = driver.localId.get.toNat
    · rw [if_pos hlocal]
    · rw [if_neg hlocal]
      have htake := driver.bounds_takeSubmission peer channel budget
      generalize driver.takeSubmission peer channel budget = step at htake ⊢
      obtain ⟨next, taken⟩ := step
      exact (next.bounds_sendChunk peer channel (budget - taken.length)).trans htake

theorem bounds_driveFrom (maxEvents : Nat) (round : MpiRound) (services : List Service)
    (events : List TransportEvent) (moved : Bool) :
    (driveFrom maxEvents round services driver events moved).1.bounds = driver.bounds := by
  induction services generalizing driver events moved with
  | nil => rfl
  | cons service rest ih =>
    have hserve := driver.bounds_serve round (maxEvents - events.length) service
    rw [driveFrom]
    generalize driver.serve round (maxEvents - events.length) service = served at hserve ⊢
    obtain ⟨after, more, result⟩ := served
    cases result with
    | error error => exact hserve
    | ok stepped => exact (ih after _ _).trans hserve

theorem bounds_drive (maxEvents : Nat) (round : MpiRound) :
    (driver.drive maxEvents round).1.bounds = driver.bounds := by
  unfold drive
  split
  · exact driver.bounds_driveFrom maxEvents round _ _ _
  · rfl

theorem bounds_fail (error : TransportError) : (driver.fail error).bounds = driver.bounds := by
  refine congrArg (Prod.mk driver.limits) ?_
  refine SubmissionState.foldl_release_limits _ _ (fun state stream => ?_) _
  exact SubmissionState.foldl_release_limits state
    (fun shared reserved => shared.release stream.2 stream.1 reserved) (fun _ _ => rfl) _

/-- No call changes the limits. -/
theorem bounds_foldl (ops : List (Backend.Op MpiRound)) :
    (ops.foldl backend.apply driver).bounds = driver.bounds := by
  have hkeeps : backend.Keeps fun state => state.bounds = driver.bounds :=
    { trySend := fun state parcel h => (state.bounds_trySend parcel).trans h
      drive := fun state maxEvents round h => (state.bounds_drive maxEvents round).trans h
      fail := fun state error h => (state.bounds_fail error).trans h
      withPending := fun _ _ h => h
      close := fun _ h => h
      stop := fun _ _ h => h }
  exact hkeeps.foldl rfl ops

end MpiDriver

/-! ## The in-memory transport -/

/-- Nothing is outstanding toward a node: nothing is queued or delayed, and no byte counted. -/
structure MemoryState.Idle (state : MemoryState) (peer : Nat) : Prop where
  incoming : ∀ channel, (state.nodes peer).incoming channel = []
  delayed : ∀ channel, (state.nodes peer).delayedCounts channel = 0
  bytes : (state.nodes peer).queuedBytes = 0

theorem MemoryState.reserve_full {state : MemoryState} {peer bytes : Nat} {parcel : Parcel}
    (hqueued : 0 < state.limits.maxQueuedParcelsPerPeer) (hidle : state.Idle peer)
    (hbytes : bytes < u64Bound) (hfull : isFull (state.reserve peer parcel bytes 1) = true) :
    SubmissionState.byteLimit state.limits parcel.channel < bytes := by
  unfold MemoryState.reserve at hfull
  simp only [hidle.incoming, hidle.delayed, hidle.bytes, List.length_nil, Nat.zero_add,
    Nat.mul_one] at hfull
  split at hfull
  · cases hfull
  rw [if_neg (by decide), if_neg (Nat.not_lt.mpr hqueued), if_neg (Nat.not_le.mpr hbytes)] at hfull
  by_contra hroom
  rw [if_neg hroom] at hfull
  cases hfull

/-- What a fault other than a scripted refusal and a copy makes of a valid parcel. -/
theorem MemoryState.inject_full {state : MemoryState} {me peer bytes : Nat} {parcel : Parcel}
    {fault : MemoryFault} (hqueued : 0 < state.limits.maxQueuedParcelsPerPeer)
    (hidle : state.Idle peer) (hbytes : bytes < u64Bound) (hsaturate : fault ≠ .saturate)
    (hduplicate : fault ≠ .duplicate)
    (hfull : isFull (state.inject me peer parcel bytes fault).2.2 = true) :
    SubmissionState.byteLimit state.limits parcel.channel < bytes := by
  have hreserve := @MemoryState.reserve_full state peer bytes parcel hqueued hidle hbytes
  cases fault with
  | saturate => exact absurd rfl hsaturate
  | duplicate => exact absurd rfl hduplicate
  | disconnect => cases hfull
  | loss => cases hfull
  | delay progressTicks =>
    unfold MemoryState.inject at hfull
    generalize state.reserve peer parcel bytes 1 = reserved at hreserve hfull
    cases reserved with
    | error error => exact hreserve hfull
    | ok _ => cases hfull
  | reorder =>
    unfold MemoryState.inject at hfull
    generalize state.reserve peer parcel bytes 1 = reserved at hreserve hfull
    cases reserved with
    | error error => exact hreserve hfull
    | ok _ => cases hfull
  | pass =>
    unfold MemoryState.inject at hfull
    generalize state.reserve peer parcel bytes 1 = reserved at hreserve hfull
    cases reserved with
    | error error => exact hreserve hfull
    | ok _ => cases hfull

/-- A valid parcel that is refused though the sender's own events are taken is larger than the
    room there is for it. -/
theorem MemoryState.trySend_full {state : MemoryState} {localId : LocalityId} {parcel : Parcel}
    (hidle : state.Idle parcel.destination.get.toNat)
    (hown : (state.nodes localId.get.toNat).system.length < state.limits.maxQueuedParcelsPerPeer)
    (hsaturate : state.faults.headD .pass ≠ .saturate)
    (hduplicate : state.faults.headD .pass ≠ .duplicate) (hfits : parcel.Fits state.limits)
    (hfull : isFull (state.trySend localId parcel).2.2 = true) :
    SubmissionState.byteLimit state.limits parcel.channel < parcel.payload := by
  have hqueued := ProtocolLimits.validate_positive hfits.valid
  have hbytes : parcel.payload < u64Bound := parcel.payload_le_frame.1.trans_lt hfits.bound
  have hpayload : parcel.payloadLen = .ok parcel.payload := checked_of_lt hbytes
  unfold MemoryState.trySend at hfull
  rw [Parcel.validate_iff.mpr hfits, hpayload] at hfull
  split at hfull
  · next error hmember =>
    have hnot := memberIndex_not_full localId state.members
    rw [hmember] at hnot
    exact absurd hfull (Bool.eq_false_iff.mp hnot)
  next me hme =>
  obtain ⟨rfl, -⟩ := memberIndex_ok hme
  split at hfull
  · cases hfull
  split at hfull
  · cases hfull
  split at hfull
  · cases hfull
  dsimp only at hfull
  split at hfull
  · next error hmember =>
    have hnot := memberIndex_not_full parcel.destination state.members
    rw [hmember] at hnot
    exact absurd hfull (Bool.eq_false_iff.mp hnot)
  next peer hpeer =>
  obtain ⟨rfl, -⟩ := memberIndex_ok hpeer
  rw [if_neg (Nat.not_le.mpr hown)] at hfull
  unfold MemoryState.submit at hfull
  split at hfull
  · cases hfull
  have hinject := @MemoryState.inject_full
    { state with nextTicket := state.nextTicket + 1, faults := state.faults.tail }
    localId.get.toNat parcel.destination.get.toNat parcel.payload parcel _ hqueued
    ⟨hidle.incoming, hidle.delayed, hidle.bytes⟩ hbytes hsaturate hduplicate
  dsimp only at hfull
  split at hfull
  · next hinjected =>
    rw [hinjected] at hinject
    exact hinject hfull
  · cases hfull

end Hataori.Transport
