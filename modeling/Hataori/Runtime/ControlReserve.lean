import Hataori.Runtime.Send
import Hataori.Transport.MemoryCharges
import Hataori.Transport.Reservations

/-!
# What is kept for control traffic

The reserve is a lower limit for the other channels. In the reservations of a transport and in
the in-memory one they cannot bring the bytes toward a peer above it, and in the table of
tickets not their number; what control traffic finds there is its own.
-/

namespace Hataori.Transport

open Hataori.Runtime Lib.Machine

namespace Ledger

variable {ledger after : Ledger} {request : Request} {stage : Reserving}

/-- A control submission that fits into the reserve beside the control submissions that are
    outstanding. -/
structure InReserve (ledger : Ledger) (request : Request) : Prop where
  control : request.channel = .control
  count : ledger.held request.peer .control < ledger.shared.limits.maxQueuedParcelsPerPeer
  bytes : ledger.weight request.peer .control + request.bytes ≤
    ledger.shared.limits.controlReservedBytesPerPeer

/-- What keeps the control submission at the gate from being refused for want of room. -/
def Reserved (ledger : Ledger) (request : Request) : Reserving → Prop
  | .entered => ledger.held request.peer .control + 1 ≤ ledger.shared.limits.maxQueuedParcelsPerPeer ∧
    ledger.weight request.peer .control + request.bytes ≤
      ledger.shared.limits.controlReservedBytesPerPeer
  | .counted count => count ≤ ledger.shared.limits.maxQueuedParcelsPerPeer ∧
    ledger.weight request.peer .control + request.bytes ≤
      ledger.shared.limits.controlReservedBytesPerPeer
  | .charged total => total ≤ ledger.shared.limits.maxInflightBytesPerPeer
  | .permitted _ => True
  | .enqueued _ => True
  | .refunding error => error.isFull = false
  | .uncounting error => error.isFull = false

theorem Reserved.mono (h : ledger.Reserved request stage)
    (hheld : after.held request.peer .control ≤ ledger.held request.peer .control)
    (hweight : after.weight request.peer .control ≤ ledger.weight request.peer .control)
    (hlimits : after.shared.limits = ledger.shared.limits) : after.Reserved request stage := by
  cases stage with
  | entered =>
    obtain ⟨hcount, hbytes⟩ := h
    exact ⟨by rw [hlimits]; omega, by rw [hlimits]; omega⟩
  | counted count =>
    obtain ⟨hcount, hbytes⟩ := h
    exact ⟨by rw [hlimits]; omega, by rw [hlimits]; omega⟩
  | charged total =>
    change total ≤ _
    rw [hlimits]
    exact h
  | permitted ticket => trivial
  | enqueued ticket => trivial
  | refunding error => exact h
  | uncounting error => exact h

/-- The driver only lets go of what is outstanding. -/
def LetsGo (ledger after : Ledger) : Prop :=
  after.gate = ledger.gate ∧ after.answers = ledger.answers ∧
    (∀ peer channel, after.held peer channel ≤ ledger.held peer channel) ∧
    ∀ peer channel, after.weight peer channel ≤ ledger.weight peer channel

theorem take_lets_go {peer : Nat} {channel : Channel}
    (hstep : ledger.take peer channel = some after) : ledger.LetsGo after := by
  unfold take at hstep
  split at hstep
  · cases hstep
  rename_i submission rest hqueue
  cases hstep
  refine ⟨rfl, rfl, ?_, ?_⟩
  · intro p c
    by_cases hat : p = peer ∧ c = channel
    · obtain ⟨rfl, rfl⟩ := hat
      simp [held, hqueue]
      omega
    · simp [held, PerChannel.set_of_ne hat]
  · intro p c
    by_cases hat : p = peer ∧ c = channel
    · obtain ⟨rfl, rfl⟩ := hat
      simp [weight, hqueue]
      omega
    · simp [weight, PerChannel.set_of_ne hat]

theorem release_lets_go {peer : Nat} {channel : Channel} {submission : Submission}
    (hstep : ledger.release peer channel submission = some after) : ledger.LetsGo after := by
  unfold release at hstep
  split at hstep
  · rename_i hmem
    have hperm := List.perm_cons_erase hmem
    have hload := load_perm hperm
    have hlength := hperm.length_eq
    cases hstep
    refine ⟨rfl, rfl, ?_, ?_⟩
    · intro p c
      by_cases hat : p = peer ∧ c = channel
      · obtain ⟨rfl, rfl⟩ := hat
        rw [List.length_cons] at hlength
        simp only [held, subBytes, PerChannel.set_same]
        omega
      · simp [held, subBytes, PerChannel.set_of_ne hat]
    · intro p c
      by_cases hat : p = peer ∧ c = channel
      · obtain ⟨rfl, rfl⟩ := hat
        rw [load_cons] at hload
        simp only [weight, subBytes, PerChannel.set_same]
        omega
      · simp [weight, subBytes, PerChannel.set_of_ne hat]
  · cases hstep

theorem uncount_lets_go {peer : Nat} {channel : Channel}
    (hstep : ledger.uncount peer channel = some after) : ledger.LetsGo after := by
  unfold uncount at hstep
  split at hstep
  · cases hstep
  cases hstep
  refine ⟨rfl, rfl, ?_, fun _ _ => Nat.le_refl _⟩
  intro p c
  by_cases hat : p = peer ∧ c = channel
  · obtain ⟨rfl, rfl⟩ := hat
    simp only [held, subCount, PerChannel.set_same]
    omega
  · simp [held, subCount, PerChannel.set_of_ne hat]

/-- The control submission at the gate goes on, with what it has reserved, or is answered and
    not refused for want of room. -/
theorem Reserved.step (h : ledger.Balanced) (hcontrol : request.channel = .control)
    (hreserve : ledger.shared.limits.controlReservedBytesPerPeer ≤
      ledger.shared.limits.maxInflightBytesPerPeer)
    (hgate : ledger.gate = some (request, stage)) (hstage : ledger.Reserved request stage)
    {act : Act} (hdrop : ∀ error, act = .drop error → error.isFull = false)
    (hstep : ledger.step act = some after) :
    (∃ next, after.gate = some (request, next) ∧ after.Reserved request next ∧
      after.answers = ledger.answers) ∨
    ∃ result, isFull result = false ∧ after.answers = ledger.answers ++ [result] := by
  have hgo : ledger.LetsGo after → ∃ next, after.gate = some (request, next) ∧
      after.Reserved request next ∧ after.answers = ledger.answers := by
    rintro ⟨hsame, hanswers, hheld, hweight⟩
    exact ⟨stage, hsame.trans hgate, hstage.mono (hheld _ _) (hweight _ _) (step_limits hstep),
      hanswers⟩
  cases act with
  | lock other =>
    simp only [Ledger.step, lock, hgate] at hstep
    cases hstep
  | close =>
    simp only [Ledger.step, close, hgate] at hstep
    cases hstep
  | take peer channel => exact .inl (hgo (take_lets_go hstep))
  | release peer channel submission => exact .inl (hgo (release_lets_go hstep))
  | uncount peer channel => exact .inl (hgo (uncount_lets_go hstep))
  | drop error =>
    simp only [Ledger.step, drop, hgate] at hstep
    split at hstep
    · cases hstep
      rename_i heq
      cases heq
      exact .inl ⟨_, rfl, hdrop error rfl, rfl⟩
    · cases hstep
  | enqueue =>
    simp only [Ledger.step, enqueue, hgate] at hstep
    cases stage with
    | permitted ticket =>
      have hroom := h.room hgate
      dsimp only at hstep
      rw [if_neg (not_le.mpr hroom)] at hstep
      cases hstep
      exact .inl ⟨_, rfl, trivial, rfl⟩
    | _ => cases hstep
  | advance =>
    obtain ⟨hcount, hbytes⟩ := h.mine hgate
    have hdata := h.data request.peer
    simp only [Ledger.step, advance, hgate] at hstep
    cases stage with
    | entered =>
      obtain ⟨hheld, hweight⟩ := hstage
      simp only [Reserving.counts, hcontrol] at hcount
      cases hstep
      refine .inl ⟨_, rfl, ⟨?_, hweight⟩, rfl⟩
      change _ ≤ ledger.shared.limits.maxQueuedParcelsPerPeer
      rw [hcontrol]
      omega
    | counted count =>
      obtain ⟨hfits, hweight⟩ := hstage
      simp only [Reserving.charges] at hbytes
      dsimp only at hstep
      rw [if_neg (not_lt.mpr hfits)] at hstep
      cases hstep
      refine .inl ⟨_, rfl, ?_, rfl⟩
      change _ ≤ ledger.shared.limits.maxInflightBytesPerPeer
      unfold SubmissionState.byteLimit at hdata
      unfold loaded at hbytes
      dsimp only at hdata
      omega
    | charged total =>
      have hfits : ¬SubmissionState.byteLimit ledger.shared.limits .control < total :=
        not_lt.mpr hstage
      dsimp only at hstep
      rw [hcontrol, if_neg hfits] at hstep
      split at hstep
      · cases hstep
        exact .inl ⟨_, rfl, rfl, rfl⟩
      · cases hstep
        exact .inl ⟨_, rfl, trivial, rfl⟩
    | permitted ticket => cases hstep
    | enqueued ticket =>
      cases hstep
      exact .inr ⟨.ok ticket, rfl, rfl⟩
    | refunding error =>
      cases hstep
      exact .inl ⟨_, rfl, hstage, rfl⟩
    | uncounting error =>
      cases hstep
      exact .inr ⟨.error error, hstage, rfl⟩

/-- Answers are only added. -/
theorem step_answers {act : Act} (hstep : ledger.step act = some after) :
    ledger.answers <+: after.answers := by
  cases act <;>
    simp only [step, lock, advance, enqueue, drop, close, take, release, uncount] at hstep <;>
    (repeat' split at hstep) <;>
    first
    | cases hstep; exact List.prefix_refl _
    | cases hstep; exact List.prefix_append _ _
    | cases hstep

theorem exec_answers {acts : List Act} (hrun : exec step ledger acts = some after) :
    ledger.answers <+: after.answers :=
  exec_invariant_all (fun found => ledger.answers <+: found.answers)
    (fun _ _ _ hinv hstep => hinv.trans (step_answers hstep)) (List.prefix_refl _) hrun

/-- The answer to the control submission at the gate, whatever else happens until it comes. -/
theorem Reserved.run (h : ledger.Balanced) (hcontrol : request.channel = .control)
    (hreserve : ledger.shared.limits.controlReservedBytesPerPeer ≤
      ledger.shared.limits.maxInflightBytesPerPeer)
    (hgate : ledger.gate = some (request, stage)) (hstage : ledger.Reserved request stage)
    {acts : List Act} (hdrop : ∀ error, Act.drop error ∈ acts → error.isFull = false)
    (hrun : exec Ledger.step ledger acts = some after) {result : Except TransportError SendTicket}
    (hresult : after.answers[ledger.answers.length]? = some result) : isFull result = false := by
  induction acts generalizing ledger stage with
  | nil =>
    cases hrun
    simp at hresult
  | cons act rest ih =>
    obtain ⟨next, hstep, hrest⟩ := exec_cons_some.mp hrun
    rcases Reserved.step h hcontrol hreserve hgate hstage
      (fun error hact => hdrop error (hact ▸ List.mem_cons_self)) hstep with
      ⟨later, hgate', hstage', hanswers⟩ | ⟨answer, hnot, hanswers⟩
    · refine ih (h.step hstep) ?_ hgate' hstage'
        (fun error hmem => hdrop error (List.mem_cons_of_mem _ hmem)) hrest ?_
      · rw [step_limits hstep]
        exact hreserve
      · rw [hanswers]
        exact hresult
    · obtain ⟨more, happend⟩ := exec_answers hrest
      rw [← happend, hanswers, List.append_assoc, List.getElem?_append_right (Nat.le_refl _)] at hresult
      simp at hresult
      rw [← hresult]
      exact hnot

/-- A control submission within the reserve, from when it takes the gate until its answer. -/
theorem InReserve.answered (h : ledger.InReserve request) (hbalanced : ledger.Balanced)
    (hvalid : ledger.shared.limits.validate = .ok ledger.shared.limits) {rest : List Act}
    (hdrop : ∀ error, Act.drop error ∈ rest → error.isFull = false)
    (hcall : exec Ledger.step ledger (.lock request :: rest) = some after)
    {result : Except TransportError SendTicket}
    (hresult : after.answers[ledger.answers.length]? = some result) : isFull result = false := by
  rw [ProtocolLimits.valid_iff] at hvalid
  obtain ⟨locked, hlock, hrest⟩ := exec_cons_some.mp hcall
  have hreserve : locked.shared.limits.controlReservedBytesPerPeer ≤
      locked.shared.limits.maxInflightBytesPerPeer := by
    rw [step_limits hlock]
    exact Nat.le_of_lt hvalid.reserve
  have hnext := hbalanced.step hlock
  simp only [Ledger.step, lock] at hlock
  split at hlock
  · cases hlock
  split at hlock
  · cases hlock
  split at hlock
  · -- the transport has been closed
    cases hlock
    obtain ⟨more, happend⟩ := exec_answers hrest
    rw [← happend] at hresult
    simp [answer] at hresult
    rw [← hresult]
    rfl
  · cases hlock
    exact Reserved.run hnext h.control hreserve rfl ⟨h.count, h.bytes⟩ hdrop hrest hresult

end Ledger

/-! ## The in-memory transport -/

/-- The copies a fault makes room for at the destination. -/
def MemoryFault.roomFor : MemoryFault → Nat
  | .duplicate => 2
  | _ => 1

/-- The limits of a 64-bit machine. -/
structure ProtocolLimits.Addressable (limits : ProtocolLimits) : Prop where
  queued : limits.maxQueuedParcelsPerPeer < u64Bound
  inflight : limits.maxInflightBytesPerPeer < u64Bound

namespace MemoryState

variable {state : MemoryState} {parcel : Parcel} {peer copies : Nat}

/-- A control parcel that fits into the reserve of its destination, as often as its fault has
    it, of a sender whose own events leave room, when the script does not saturate the network. -/
structure InReserve (state : MemoryState) (localId : LocalityId) (parcel : Parcel) : Prop where
  control : parcel.channel = .control
  system : (state.nodes localId.get.toNat).system.length < state.limits.maxQueuedParcelsPerPeer
  fault : state.faults.headD .pass ≠ .saturate
  count : ((state.nodes parcel.destination.get.toNat).incoming .control).length +
    (state.nodes parcel.destination.get.toNat).delayedCounts .control +
      (state.faults.headD .pass).roomFor ≤ state.limits.maxQueuedParcelsPerPeer
  bytes : (state.nodes parcel.destination.get.toNat).weight state.delayed
      parcel.destination.get.toNat .control +
    parcel.payload * (state.faults.headD .pass).roomFor ≤ state.limits.controlReservedBytesPerPeer

/-- The other channels have left the reserve of a node alone. -/
theorem Metered.reserve_control (h : state.Metered) (hsize : state.limits.Addressable)
    (hreserve : state.limits.controlReservedBytesPerPeer ≤ state.limits.maxInflightBytesPerPeer)
    (hcontrol : parcel.channel = .control)
    (hcount : ((state.nodes peer).incoming .control).length + (state.nodes peer).delayedCounts .control +
      copies ≤ state.limits.maxQueuedParcelsPerPeer)
    (hweight : (state.nodes peer).weight state.delayed peer .control + parcel.payload * copies ≤
      state.limits.controlReservedBytesPerPeer) :
    isFull (state.reserve peer parcel parcel.payload copies) = false := by
  have hbytes := (h.carries.nodes peer trivial).bytes
  have hdata := (h.carries.nodes peer trivial).data
  have hqueued := hsize.queued
  have hinflight := hsize.inflight
  have hfits : (state.nodes peer).queuedBytes + parcel.payload * copies ≤
      state.limits.maxInflightBytesPerPeer := by
    unfold SubmissionState.byteLimit at hdata
    dsimp only at hdata
    omega
  unfold MemoryState.reserve
  dsimp only
  rw [hcontrol]
  split
  · rfl
  rw [if_neg (by omega), if_neg (by omega), if_neg (by omega)]
  have hlimit : ¬SubmissionState.byteLimit state.limits .control <
      (state.nodes peer).queuedBytes + parcel.payload * copies := not_lt.mpr hfits
  rw [if_neg hlimit]
  rfl

theorem inject_not_full {me : Nat} {fault : MemoryFault} (hfault : fault ≠ .saturate)
    (hroom : isFull (state.reserve peer parcel parcel.payload fault.roomFor) = false) :
    isFull (state.inject me peer parcel parcel.payload fault).2.2 = false := by
  cases fault with
  | saturate => exact absurd rfl hfault
  | loss => rfl
  | disconnect => rfl
  | pass | reorder | duplicate | delay progressTicks =>
    rw [MemoryState.inject]
    simp only [MemoryFault.roomFor] at hroom
    split
    · rename_i error hreserve
      rw [hreserve] at hroom
      exact hroom
    · rfl

/-- A send is refused for want of room by the sender's own queue, or by its fault. -/
theorem trySend_not_full (localId : LocalityId)
    (hsystem : (state.nodes localId.get.toNat).system.length < state.limits.maxQueuedParcelsPerPeer)
    (hfault : state.faults.headD .pass ≠ .saturate)
    (hroom : isFull (state.reserve parcel.destination.get.toNat parcel parcel.payload
      (state.faults.headD .pass).roomFor) = false) :
    isFull (state.trySend localId parcel).2.2 = false := by
  unfold MemoryState.trySend
  split
  · rename_i error hme
    have hnot := memberIndex_not_full localId state.members
    rw [hme] at hnot
    exact hnot
  rename_i me hme
  obtain ⟨rfl, -⟩ := memberIndex_ok hme
  split
  · rfl
  split
  · rfl
  split
  · rfl
  split
  · rfl
  split
  · rename_i error hpeer
    have hnot := memberIndex_not_full parcel.destination state.members
    rw [hpeer] at hnot
    exact hnot
  rename_i peer hpeer
  obtain ⟨rfl, -⟩ := memberIndex_ok hpeer
  rw [if_neg (not_le.mpr hsystem)]
  split
  · rfl
  rename_i bytes hbytes
  obtain ⟨rfl, -⟩ := checked_ok hbytes
  unfold submit
  split
  · rfl
  have hinject := @inject_not_full { state with
    nextTicket := state.nextTicket + 1, faults := state.faults.tail } parcel
    parcel.destination.get.toNat localId.get.toNat _ hfault hroom
  dsimp only at hinject ⊢
  generalize MemoryState.inject _ localId.get.toNat parcel.destination.get.toNat parcel _
    (state.faults.headD .pass) = step at hinject ⊢
  obtain ⟨next, arrivals, result⟩ := step
  cases result with
  | error error => exact hinject
  | ok done => rfl

end MemoryState

end Hataori.Transport

namespace Hataori.Runtime

open Hataori.Transport Lib.Machine

/-- Control traffic keeps its reserve, whatever was sent before on any channel. In the
    reservations of a transport a control submission within the reserve is not refused for want
    of room, from the moment it has the gate until its answer. In the in-memory transport it is
    not either, unless the sender's own events fill their queue, the script saturates the network
    at this send, or it doubles the parcel and only one copy has room. A `Cancel` always finds a
    place in the table of tickets. -/
theorem control_reserved :
    (∀ (limits : ProtocolLimits) acts (ledger after : Ledger) (request : Request) rest result,
      limits.validate = .ok limits → exec Ledger.step (.new limits) acts = some ledger →
      ledger.InReserve request → (∀ error, Ledger.Act.drop error ∈ rest → error.isFull = false) →
      exec Ledger.step ledger (.lock request :: rest) = some after →
      after.answers[ledger.answers.length]? = some result → isFull result = false) ∧
    (∀ (localityCount : Nat) (runId : RunId) (limits : ProtocolLimits) (faults : List MemoryFault)
      (start : MemoryState) (ops : List MemoryState.Op) (localId : LocalityId) (parcel : Parcel),
      limits.Addressable → MemoryState.build localityCount runId limits faults = .ok start →
      (ops.foldl MemoryState.apply start).InReserve localId parcel →
      isFull ((ops.foldl MemoryState.apply start).trySend localId parcel).2.2 = false) ∧
    ∀ (config : SendConfig) (ops : List Shared.Op) (destination : LocalityId)
      (message : RuntimeMessage) (purpose : TicketPurpose) (traceId : Option TraceId)
      (trySend : Parcel → Except TransportError SendTicket) (limit : Nat),
      message.kind = .cancel →
      (ops.foldl (Shared.apply config) .new).controlTickets.length < config.limits.maxPendingCalls →
      (ops.foldl (Shared.apply config) .new).tickets.length < usizeMax →
      ((ops.foldl (Shared.apply config) .new).send config destination message purpose traceId
        trySend).1 ≠ .error (.resourceExhausted .sendTickets limit) := by
  refine ⟨?_, ?_, ?_⟩
  · intro limits acts ledger after request rest result hvalid hrun hreserve hdrop hcall hresult
    have hbalanced : ledger.Balanced := (Ledger.Balanced.new limits).run hrun
    have hlimits : ledger.shared.limits = limits := Ledger.exec_limits hrun
    exact hreserve.answered hbalanced (by rw [hlimits]; exact hvalid) hdrop hcall hresult
  · intro localityCount runId limits faults start ops localId parcel hsize hbuild hin
    obtain ⟨hmetered, hlimits, hreserve, -⟩ := MemoryState.build_metered hbuild
    obtain ⟨hlast, hkept⟩ := hmetered.run ops
    rw [hlimits] at hkept
    refine MemoryState.trySend_not_full localId hin.system hin.fault ?_
    exact hlast.reserve_control (by rw [hkept]; exact hsize) (by rw [hkept]; exact hreserve)
      hin.control hin.count hin.bytes
  · intro config ops destination message purpose traceId trySend limit hcancel hcontrol hmemory
    have hdata := @Shared.run_dataTickets config .new ops (Nat.zero_le _)
    exact Shared.send_cancel (Shared.room_for_cancel hdata hcontrol hmemory) hcancel destination
      purpose traceId trySend limit

/-- A control parcel of one byte from the second locality to the first. -/
def sampleControl : Parcel :=
  { sampleParcel [5] with channel := .control, kind := .control }

/-- The message of a `Cancel`. -/
def sampleCancel : RuntimeMessage where
  kind := .cancel
  request := ⟨⟨1⟩, 1, u64_one⟩
  action := ⟨1, u128_one⟩
  domain := ⟨1⟩
  deadlineMs := 0
  payload := []

/-- A configuration with room for one pending call. -/
def sampleSending : SendConfig where
  runId := ⟨1, u128_one⟩
  localId := ⟨1⟩
  protocolLimits := MemoryState.sampleCramped
  limits := ⟨1, 1, 1, 1, by decide⟩
  maxActionQueuePerDomain := 1
  display := fun _ => ""

/-- A control submission that is granted at once, a control parcel that finds a network empty,
    and a `Cancel` before any other message. -/
theorem control_reserved_sample :
    (∃ after, exec Ledger.step (.new MemoryState.sampleCramped)
      [.lock ⟨0, sampleControl, 10⟩, .advance, .advance, .advance, .enqueue, .advance] = some after ∧
      ∀ result, after.answers[0]? = some result → isFull result = false) ∧
    (∃ start, MemoryState.build 2 ⟨1, by decide⟩ MemoryState.sampleCramped [] = .ok start ∧
      isFull (start.trySend ⟨1⟩ sampleControl).2.2 = false) ∧
    (Shared.new.send sampleSending ⟨0⟩ sampleCancel .bestEffort none fun _ => .ok ⟨1⟩).1 ≠
      .error (.resourceExhausted .sendTickets 4) := by
  obtain ⟨hsubmission, hmemory, hcancel⟩ := control_reserved
  refine ⟨⟨_, rfl, ?_⟩, ⟨_, rfl, ?_⟩, ?_⟩
  · intro result hresult
    exact hsubmission MemoryState.sampleCramped [] (.new _) _ ⟨0, sampleControl, 10⟩
      [.advance, .advance, .advance, .enqueue, .advance] result rfl rfl
      ⟨rfl, by decide, by decide⟩ (by simp) rfl hresult
  · exact hmemory 2 ⟨1, by decide⟩ MemoryState.sampleCramped [] _ [] ⟨1⟩ sampleControl
      ⟨by decide, by decide⟩ rfl
      ⟨rfl, by decide, by decide, by decide +kernel, by decide +kernel⟩
  · exact hcancel sampleSending [] ⟨0⟩ sampleCancel .bestEffort none (fun _ => .ok ⟨1⟩) 4 rfl
      (by decide) (by decide)

/-- In the in-memory transport a control parcel is refused for want of room although no other is
    outstanding and its bytes fit into the reserve: behind an action parcel whose completion its
    sender has yet to take, when the script saturates the network, and when it doubles the parcel
    where only one is allowed. -/
theorem control_refused :
    (∃ start, MemoryState.build 2 ⟨1, by decide⟩ MemoryState.sampleCramped [] = .ok start ∧
      (start.apply (.trySend ⟨1⟩ (sampleParcel [5]))).limits = MemoryState.sampleCramped ∧
      ((start.apply (.trySend ⟨1⟩ (sampleParcel [5]))).nodes 0).incoming .control = [] ∧
      (start.apply (.trySend ⟨1⟩ (sampleParcel [5]))).delayed = [] ∧
      isFull ((start.apply (.trySend ⟨1⟩ (sampleParcel [5]))).trySend ⟨1⟩ sampleControl).2.2 = true) ∧
    (∀ fault ∈ [MemoryFault.saturate, .duplicate], ∃ start,
      MemoryState.build 2 ⟨1, by decide⟩ MemoryState.sampleCramped [fault] = .ok start ∧
        isFull (start.trySend ⟨1⟩ sampleControl).2.2 = true) ∧
    sampleControl.payload ≤ MemoryState.sampleCramped.controlReservedBytesPerPeer := by
  refine ⟨⟨_, rfl, rfl, by decide +kernel, by decide +kernel, by decide +kernel⟩, ?_, by decide⟩
  intro fault hmem
  simp only [List.mem_cons, List.not_mem_nil, or_false] at hmem
  rcases hmem with rfl | rfl
  · exact ⟨_, rfl, by decide +kernel⟩
  · exact ⟨_, rfl, by decide +kernel⟩

end Hataori.Runtime
