import Hataori.Lib.Machine
import Hataori.Transport.Delivery

/-!
# A driver that fails while its handles send

`TcpDriver::fail` and `MpiDriver::fail` give back what the streams hold, one stream after
another, and close the submission gate at the end. A `try_send` holds the gate from its
reservation to its end, so a race between the two is a sequence of their steps: a call
begins with its checks, reserves, enqueues and commits or gives up, and `fail` drains a
stream or closes.
-/

namespace Hataori.Transport

open Hataori.Runtime Lib.Machine

/-- The checks `try_send` makes before it reserves: the peer of a parcel and the bytes to
    reserve for it. -/
def Handle.check (handle : Handle) (overhead : Nat) (parcel : Parcel) :
    Except TransportError (Nat × Nat) :=
  if parcel.runId ≠ handle.runId then .error (.protocol .runMismatch)
  else if parcel.source ≠ handle.localId then
    .error (.peer "parcel source does not match handle")
  else
    match memberIndex parcel.destination handle.members with
    | .error error => .error error
    | .ok peer =>
      if parcel.destination = handle.localId then
        .error (.invalidDestination parcel.destination)
      else
        match parcel.validate handle.limits, parcel.encodedLen with
        | .error error, _ => .error (.protocol error)
        | .ok (), .error error => .error (.protocol error)
        | .ok (), .ok encoded =>
          if u64Bound ≤ encoded + overhead then
            .error (.byteLimit usizeMax handle.limits.maxInflightBytesPerPeer)
          else .ok (peer, encoded + overhead)

theorem Handle.check_ok {handle : Handle} {overhead : Nat} {parcel : Parcel} {peer bytes : Nat}
    (h : handle.check overhead parcel = .ok (peer, bytes)) : peer < handle.members := by
  unfold Handle.check at h
  split at h
  · cases h
  split at h
  · cases h
  split at h
  · cases h
  rename_i index hindex
  split at h
  · cases h
  split at h
  · cases h
  · cases h
  split at h
  · cases h
  · cases h
    exact (memberIndex_ok hindex).2

/-- `try_send` checks, reserves and enqueues. -/
theorem Handle.submit_eq (handle : Handle) (overhead : Nat) (shared : SubmissionState)
    (receivers : PerChannel (List Submission)) (parcel : Parcel) :
    handle.submit overhead shared receivers parcel =
      match handle.check overhead parcel with
      | .error error => (shared, receivers, .error error)
      | .ok (peer, bytes) =>
        match shared.reserve peer parcel.channel bytes with
        | .error error => (shared, receivers, .error error)
        | .ok (ticket, reserved) =>
          if handle.limits.maxQueuedParcelsPerPeer ≤ (receivers peer parcel.channel).length then
            (reserved.release peer parcel.channel bytes, receivers,
              .error (.queueFull parcel.channel handle.limits.maxQueuedParcelsPerPeer))
          else
            (reserved,
              receivers.set peer parcel.channel (receivers peer parcel.channel ++
                [⟨ticket, parcel, bytes⟩]), .ok ticket) := by
  unfold Handle.submit Handle.check
  repeat' split
  all_goals grind

/-- How far a `try_send` that holds the gate is. -/
inductive Stage where
  | reserved
  | enqueued
  | refused
  deriving DecidableEq, Repr

/-- `SendPermit`: the call that holds the gate and what it reserved. -/
structure SendPermit where
  sender : Nat
  peer : Nat
  submission : Submission
  stage : Stage

/-- How far `fail` is: the streams it has yet to drain. -/
inductive FailProgress where
  | running
  | draining (left : List (Nat × Channel))
  | returned

/-- A driver and its handles. `written` are the reservations of what the driver took from
    the receivers, `waiting` the calls that passed their checks and wait for the gate. -/
structure Race where
  handle : Handle
  overhead : Nat
  shared : SubmissionState
  receivers : PerChannel (List Submission)
  written : PerChannel (List Nat)
  waiting : Nat → Option (Parcel × Nat × Nat)
  gate : Option SendPermit
  progress : FailProgress
  answers : List (Nat × Except TransportError SendTicket)

namespace Race

/-- The streams of a driver in the order `fail` drains them. -/
def streams (race : Race) : List (Nat × Channel) :=
  (List.range race.handle.members).flatMap fun peer => channels.map fun channel => (peer, channel)

/-- A call of `try_send` returns. -/
def answer (race : Race) (sender : Nat) (result : Except TransportError SendTicket) : Race :=
  { race with answers := race.answers ++ [(sender, result)] }

/-- A call begins with the checks of its parcel. -/
def begin (race : Race) (sender : Nat) (parcel : Parcel) : Option Race :=
  match race.waiting sender with
  | some _ => none
  | none =>
    match race.handle.check race.overhead parcel with
    | .error error => some (race.answer sender (.error error))
    | .ok (peer, bytes) =>
      some { race with waiting := Function.update race.waiting sender (some (parcel, peer, bytes)) }

/-- A call takes the gate and reserves. -/
def reserve (race : Race) (sender : Nat) : Option Race :=
  match race.waiting sender, race.gate with
  | some (parcel, peer, bytes), none =>
    let race := { race with waiting := Function.update race.waiting sender none }
    match race.shared.reserve peer parcel.channel bytes with
    | .error error => some (race.answer sender (.error error))
    | .ok (ticket, shared) =>
      some { race with
        shared := shared
        gate := some ⟨sender, peer, ⟨ticket, parcel, bytes⟩, .reserved⟩ }
  | _, _ => none

/-- The call with the gate tries to enqueue its submission. The receivers live as long as
    the driver that fails. -/
def enqueue (race : Race) : Option Race :=
  match race.gate with
  | some ⟨sender, peer, submission, .reserved⟩ =>
    let channel := submission.parcel.channel
    if race.handle.limits.maxQueuedParcelsPerPeer ≤ (race.receivers peer channel).length then
      some { race with gate := some ⟨sender, peer, submission, .refused⟩ }
    else
      some { race with
        receivers := race.receivers.set peer channel (race.receivers peer channel ++ [submission])
        gate := some ⟨sender, peer, submission, .enqueued⟩ }
  | _ => none

/-- The call with the gate commits its permit or drops it, and returns. -/
def finish (race : Race) : Option Race :=
  match race.gate with
  | some ⟨sender, _, submission, .enqueued⟩ =>
    some ({ race with gate := none }.answer sender (.ok submission.ticket))
  | some ⟨sender, peer, submission, .refused⟩ =>
    some ({ race with
        shared := race.shared.release peer submission.parcel.channel submission.reservedBytes
        gate := none }.answer sender
      (.error (.queueFull submission.parcel.channel race.handle.limits.maxQueuedParcelsPerPeer)))
  | _ => none

/-- `fail` gives back what one stream holds. -/
def drain (race : Race) (peer : Nat) (channel : Channel) : Race :=
  { race with
    shared := TcpDriver.releaseAll race.shared peer channel
      ((race.receivers peer channel).map Submission.reservedBytes ++ race.written peer channel)
    receivers := race.receivers.set peer channel []
    written := race.written.set peer channel [] }

/-- The next step of `fail`; `close` takes the gate. -/
def fail (race : Race) : Option Race :=
  match race.progress with
  | .running => some { race with progress := .draining race.streams }
  | .draining ((peer, channel) :: left) =>
    some { race.drain peer channel with progress := .draining left }
  | .draining [] =>
    match race.gate with
    | some _ => none
    | none => some { race with shared := race.shared.close, progress := .returned }
  | .returned => none

/-- The steps of a race. -/
inductive Act where
  | begin (sender : Nat) (parcel : Parcel)
  | reserve (sender : Nat)
  | enqueue
  | finish
  | fail

/-- One step; `none` when it cannot be taken. -/
def step (race : Race) : Act → Option Race
  | .begin sender parcel => race.begin sender parcel
  | .reserve sender => race.reserve sender
  | .enqueue => race.enqueue
  | .finish => race.finish
  | .fail => race.fail

/-- `fail` has returned, and so has every call of `try_send`. -/
def Ended (race : Race) : Prop :=
  race.progress matches .returned ∧ race.gate = none ∧ ∀ sender, race.waiting sender = none

/-- Nothing is reserved, nothing is queued, and no parcel is accepted any more. -/
structure Released (race : Race) : Prop where
  counts : ∀ peer < race.handle.members, ∀ channel, race.shared.counts peer channel = 0
  bytes : ∀ peer < race.handle.members, race.shared.bytes peer = 0
  receivers : ∀ peer < race.handle.members, ∀ channel, race.receivers peer channel = []
  rejected : ∀ parcel, ∃ error,
    (race.handle.submit race.overhead race.shared race.receivers parcel).2.2 = .error error

/-- `fail` is done with a stream. -/
def Drained (race : Race) (peer : Nat) (channel : Channel) : Prop :=
  match race.progress with
  | .running => False
  | .draining left => (peer, channel) ∉ left
  | .returned => True

/-- The step does not enqueue a submission into a stream `fail` is done with. -/
def Timely (race : Race) : Act → Prop
  | .enqueue => ∀ permit, race.gate = some permit →
    race.Drained permit.peer permit.submission.parcel.channel →
    race.handle.limits.maxQueuedParcelsPerPeer ≤
      (race.receivers permit.peer permit.submission.parcel.channel).length
  | _ => True

theorem drained_running {race : Race} {peer : Nat} {channel : Channel}
    (h : race.progress = .running) : ¬race.Drained peer channel := by
  simp [Drained, h]

theorem drained_draining {race : Race} {peer : Nat} {channel : Channel}
    {left : List (Nat × Channel)} (h : race.progress = .draining left) :
    (peer, channel) ∉ left ↔ race.Drained peer channel := by
  simp [Drained, h]

theorem drained_returned {race : Race} {peer : Nat} {channel : Channel}
    (h : race.progress = .returned) : race.Drained peer channel := by
  simp [Drained, h]

instance lawfulStreams : LawfulBEq (Nat × Channel) := inferInstance

instance decidableDrained (race : Race) (peer : Nat) (channel : Channel) :
    Decidable (race.Drained peer channel) :=
  match h : race.progress with
  | .running => .isFalse (drained_running h)
  | .draining left => decidable_of_iff ((peer, channel) ∉ left) (drained_draining h)
  | .returned => .isTrue (drained_returned h)

instance decidableTimely (race : Race) : ∀ act, Decidable (race.Timely act)
  | .enqueue =>
    match h : race.gate with
    | none => .isTrue (by simp [Timely, h])
    | some permit =>
      decidable_of_iff (race.Drained permit.peer permit.submission.parcel.channel →
        race.handle.limits.maxQueuedParcelsPerPeer ≤
          (race.receivers permit.peer permit.submission.parcel.channel).length)
        (by simp [Timely, h])
  | .begin _ _ => .isTrue trivial
  | .reserve _ => .isTrue trivial
  | .finish => .isTrue trivial
  | .fail => .isTrue trivial

/-! ## Reservations -/

/-- What the call with the gate has reserved and not put into a queue. -/
def pledged (gate : Option SendPermit) (peer : Nat) (channel : Channel) : List Nat :=
  match gate with
  | some ⟨_, target, submission, stage⟩ =>
    if stage ≠ .enqueued ∧ peer = target ∧ channel = submission.parcel.channel then
      [submission.reservedBytes]
    else []
  | none => []

/-- The reservations of a stream. -/
def held (race : Race) (peer : Nat) (channel : Channel) : List Nat :=
  (race.receivers peer channel).map Submission.reservedBytes ++ race.written peer channel ++
    pledged race.gate peer channel

/-- What is reserved is what the streams and the call with the gate hold, and `fail` leaves
    nothing of the driver's own in a stream it is done with. -/
structure Accounted (race : Race) : Prop where
  holds : race.shared.Holds race.held
  gate : ∀ permit, race.gate = some permit → permit.peer < race.handle.members
  waiting : ∀ sender parcel peer bytes, race.waiting sender = some (parcel, peer, bytes) →
    peer < race.handle.members
  written : ∀ peer < race.handle.members, ∀ channel, race.Drained peer channel →
    race.written peer channel = []
  closed : race.progress = .returned → race.shared.closed = true

variable {race after : Race}

theorem pledged_of_ne {permit : SendPermit} {peer : Nat} {channel : Channel}
    (h : ¬(peer = permit.peer ∧ channel = permit.submission.parcel.channel)) :
    pledged (some permit) peer channel = [] := by
  obtain ⟨sender, target, submission, stage⟩ := permit
  exact if_neg fun hat => h hat.2

/-- A call that waits for the gate holds nothing. -/
theorem Accounted.begin (h : race.Accounted) {sender : Nat} {parcel : Parcel}
    (hstep : race.begin sender parcel = some after) : after.Accounted := by
  unfold Race.begin at hstep
  split at hstep
  · cases hstep
  split at hstep
  · cases hstep
    exact ⟨h.holds, h.gate, h.waiting, h.written, h.closed⟩
  · rename_i peer bytes hcheck
    cases hstep
    refine ⟨h.holds, h.gate, ?_, h.written, h.closed⟩
    intro other text target size hwaiting
    dsimp only at hwaiting
    by_cases hsame : other = sender
    · subst hsame
      rw [Function.update_self] at hwaiting
      cases hwaiting
      exact Handle.check_ok hcheck
    · rw [Function.update_of_ne hsame] at hwaiting
      exact h.waiting other text target size hwaiting

theorem Accounted.reserve (h : race.Accounted) {sender : Nat}
    (hstep : race.reserve sender = some after) : after.Accounted := by
  unfold Race.reserve at hstep
  split at hstep
  · rename_i parcel peer bytes hcall hgate
    have hwaiting : ∀ other text target size,
        Function.update race.waiting sender none other = some (text, target, size) →
          target < race.handle.members := by
      intro other text target size hother
      by_cases hsame : other = sender
      · subst hsame
        rw [Function.update_self] at hother
        cases hother
      · rw [Function.update_of_ne hsame] at hother
        exact h.waiting other text target size hother
    dsimp only at hstep
    split at hstep
    · cases hstep
      exact ⟨h.holds, h.gate, hwaiting, h.written, h.closed⟩
    · rename_i ticket shared hreserve
      cases hstep
      refine ⟨?_, ?_, hwaiting, h.written, ?_⟩
      · refine h.holds.reserve hreserve (fun p c hother => ?_) ?_
        · rw [held, held, pledged_of_ne hother, hgate]
          rfl
        · simp only [held, hgate, pledged, ne_eq, reduceCtorEq, not_false_eq_true, and_self,
            if_true, List.append_nil]
          exact List.perm_append_singleton _ _
      · intro permit hpermit
        cases hpermit
        exact h.waiting sender parcel peer bytes hcall
      · intro hreturned
        have hopen := (SubmissionState.reserve_ok hreserve).1
        rw [h.closed hreturned] at hopen
        cases hopen
  · cases hstep

theorem Accounted.enqueue (h : race.Accounted) (hstep : race.enqueue = some after) :
    after.Accounted := by
  unfold Race.enqueue at hstep
  split at hstep
  · rename_i sender peer submission hgate
    have hmember := h.gate _ hgate
    dsimp only at hstep
    split at hstep
    · cases hstep
      refine ⟨?_, fun permit hpermit => ?_, h.waiting, h.written, h.closed⟩
      · refine h.holds.perm (fun p c => ?_) rfl rfl
        simp [held, hgate, pledged]
      · cases hpermit
        exact hmember
    · cases hstep
      refine ⟨?_, fun permit hpermit => ?_, h.waiting, h.written, h.closed⟩
      · refine h.holds.perm (fun p c => ?_) rfl rfl
        by_cases hat : p = peer ∧ c = submission.parcel.channel
        · obtain ⟨rfl, rfl⟩ := hat
          simp only [held, hgate, pledged, PerChannel.set_same, List.map_append, List.map_cons,
            List.map_nil, ne_eq, reduceCtorEq, not_true_eq_false, not_false_eq_true, false_and,
            and_self, if_true, if_false, List.append_nil, List.append_assoc]
          exact List.perm_append_comm.append_left _
        · rw [held, held, hgate, pledged_of_ne hat, pledged_of_ne hat]
          simp only [PerChannel.set_of_ne hat]
          exact List.Perm.refl _
      · cases hpermit
        exact hmember
  · cases hstep

theorem Accounted.finish (h : race.Accounted) (hstep : race.finish = some after) :
    after.Accounted := by
  unfold Race.finish at hstep
  split at hstep
  · rename_i sender peer submission hgate
    cases hstep
    refine ⟨?_, by simp [Race.answer], h.waiting, h.written, h.closed⟩
    refine h.holds.perm (fun p c => ?_) rfl rfl
    simp [held, hgate, pledged, Race.answer]
  · rename_i sender peer submission hgate
    cases hstep
    refine ⟨?_, by simp [Race.answer], h.waiting, h.written, h.closed⟩
    refine h.holds.release peer submission.parcel.channel (fun p c hother => ?_) ?_
    · rw [held, held, hgate, pledged_of_ne hother]
      rfl
    · simp only [held, hgate, pledged, Race.answer, ne_eq, reduceCtorEq, not_false_eq_true,
        and_self, if_true, List.append_nil]
      exact List.perm_append_singleton _ _
  · cases hstep

/-- Reservations of one stream given back one by one. -/
theorem holds_releaseAll {shared : SubmissionState} {before now : PerChannel (List Nat)}
    {peer : Nat} {channel : Channel} {bytes : List Nat} (h : shared.Holds before)
    (hother : ∀ p c, ¬(p = peer ∧ c = channel) → now p c = before p c)
    (hnow : before peer channel = bytes ++ now peer channel) :
    (TcpDriver.releaseAll shared peer channel bytes).Holds now := by
  induction bytes generalizing shared before with
  | nil =>
    refine h.perm (fun p c => ?_) rfl rfl
    by_cases hat : p = peer ∧ c = channel
    · obtain ⟨rfl, rfl⟩ := hat
      rw [hnow]
      exact List.Perm.refl _
    · rw [hother p c hat]
  | cons reserved rest ih =>
    have hnext : (shared.release peer channel reserved).Holds
        (before.set peer channel (rest ++ now peer channel)) := by
      refine h.release peer channel (fun p c hat => PerChannel.set_of_ne hat) ?_
      rw [hnow, PerChannel.set_same]
      exact List.Perm.refl _
    refine ih hnext (fun p c hat => ?_) (PerChannel.set_same _ _ _ _)
    rw [PerChannel.set_of_ne hat]
    exact hother p c hat

theorem Accounted.fail (h : race.Accounted) (hstep : race.fail = some after) :
    after.Accounted := by
  unfold Race.fail at hstep
  split at hstep
  · cases hstep
    refine ⟨h.holds, h.gate, h.waiting, fun peer hpeer channel hdrained => ?_, by simp⟩
    refine absurd ?_ hdrained
    exact List.mem_flatMap.mpr ⟨peer, List.mem_range.mpr hpeer,
      List.mem_map.mpr ⟨channel, SubmissionState.mem_channels channel, rfl⟩⟩
  · rename_i peer channel left hprogress
    cases hstep
    refine ⟨?_, h.gate, h.waiting, fun p hp c hdrained => ?_, by simp⟩
    · refine holds_releaseAll h.holds (fun p c hat => ?_) ?_
      · simp only [held, drain, PerChannel.set_of_ne hat]
      · simp only [held, drain, PerChannel.set_same, List.map_nil, List.nil_append]
    · by_cases hat : p = peer ∧ c = channel
      · obtain ⟨rfl, rfl⟩ := hat
        exact PerChannel.set_same _ _ _ _
      · rw [show ({ race.drain peer channel with progress := .draining left } : Race).written p c =
          race.written p c from PerChannel.set_of_ne hat]
        refine h.written p hp c ?_
        rw [Drained, hprogress]
        intro hmem
        rcases List.mem_cons.mp hmem with heq | hleft
        · exact hat ⟨congrArg Prod.fst heq, congrArg Prod.snd heq⟩
        · exact hdrained hleft
  · rename_i hprogress
    split at hstep
    · cases hstep
    · cases hstep
      refine ⟨h.holds.perm (fun _ _ => List.Perm.refl _) rfl rfl, h.gate, h.waiting,
        fun p hp c _ => ?_, fun _ => rfl⟩
      refine h.written p hp c ?_
      rw [Drained, hprogress]
      exact List.not_mem_nil
  · cases hstep

theorem Accounted.step (h : race.Accounted) {act : Act} (hstep : race.step act = some after) :
    after.Accounted := by
  cases act with
  | begin sender parcel => exact h.begin hstep
  | reserve sender => exact h.reserve hstep
  | enqueue => exact h.enqueue hstep
  | finish => exact h.finish hstep
  | fail => exact h.fail hstep

/-! ## What is left behind -/

/-- Every stream `fail` is done with is empty. -/
def Clear (race : Race) : Prop :=
  ∀ peer < race.handle.members, ∀ channel, race.Drained peer channel →
    race.receivers peer channel = []

/-- A step other than `enqueue` and `fail` changes neither the queues nor how far `fail`
    is. -/
theorem step_receivers {act : Act} (hstep : race.step act = some after) :
    (after.handle = race.handle ∧ after.receivers = race.receivers ∧
      after.progress = race.progress) ∨
    (act = .enqueue ∧ after.handle = race.handle ∧ after.progress = race.progress ∧
      ∃ permit, race.gate = some permit ∧
        (race.receivers permit.peer permit.submission.parcel.channel).length <
          race.handle.limits.maxQueuedParcelsPerPeer ∧
        after.receivers = race.receivers.set permit.peer permit.submission.parcel.channel
          (race.receivers permit.peer permit.submission.parcel.channel ++
            [permit.submission])) ∨
    (race.progress = .running ∧ after.handle = race.handle ∧
      after.receivers = race.receivers ∧ after.progress = .draining race.streams) ∨
    (∃ peer channel left, race.progress = .draining ((peer, channel) :: left) ∧
      after.handle = race.handle ∧ after.receivers = race.receivers.set peer channel [] ∧
      after.progress = .draining left) ∨
    (race.progress = .draining [] ∧ after.handle = race.handle ∧
      after.receivers = race.receivers ∧ after.progress = .returned) := by
  cases act with
  | begin sender parcel =>
    simp only [Race.step, Race.begin] at hstep
    split at hstep
    · cases hstep
    split at hstep <;> cases hstep <;> exact .inl ⟨rfl, rfl, rfl⟩
  | reserve sender =>
    simp only [Race.step, Race.reserve] at hstep
    split at hstep
    · split at hstep <;> cases hstep <;> exact .inl ⟨rfl, rfl, rfl⟩
    · cases hstep
  | enqueue =>
    simp only [Race.step, Race.enqueue] at hstep
    split at hstep
    · rename_i sender peer submission hgate
      split at hstep
      · cases hstep
        exact .inl ⟨rfl, rfl, rfl⟩
      · rename_i hroom
        cases hstep
        exact .inr (.inl ⟨rfl, rfl, rfl, _, hgate, Nat.not_le.mp hroom, rfl⟩)
    · cases hstep
  | finish =>
    simp only [Race.step, Race.finish] at hstep
    split at hstep
    · cases hstep
      exact .inl ⟨rfl, rfl, rfl⟩
    · cases hstep
      exact .inl ⟨rfl, rfl, rfl⟩
    · cases hstep
  | fail =>
    simp only [Race.step, Race.fail] at hstep
    split at hstep
    · rename_i hprogress
      cases hstep
      exact .inr (.inr (.inl ⟨hprogress, rfl, rfl, rfl⟩))
    · rename_i peer channel left hprogress
      cases hstep
      exact .inr (.inr (.inr (.inl ⟨peer, channel, left, hprogress, rfl, rfl, rfl⟩)))
    · rename_i hprogress
      split at hstep
      · cases hstep
      · cases hstep
        exact .inr (.inr (.inr (.inr ⟨hprogress, rfl, rfl, rfl⟩)))
    · cases hstep

theorem Drained.congr {peer : Nat} {channel : Channel} (h : after.progress = race.progress) :
    after.Drained peer channel ↔ race.Drained peer channel := by
  rw [Drained, Drained, h]

/-- A timely step keeps the drained streams empty. -/
theorem Clear.step (h : race.Clear) {act : Act} (htimely : race.Timely act)
    (hstep : race.step act = some after) : after.Clear := by
  intro peer hpeer channel hdrained
  obtain ⟨hhandle, hreceivers, hprogress⟩ | ⟨rfl, hhandle, hprogress, permit, hgate, hroom,
      hreceivers⟩ | ⟨hprogress, hhandle, hreceivers, hafter⟩ |
    ⟨drained, which, left, hprogress, hhandle, hreceivers, hafter⟩ |
    ⟨hprogress, hhandle, hreceivers, hafter⟩ := step_receivers hstep
  · rw [hreceivers]
    rw [hhandle] at hpeer
    exact h peer hpeer channel ((Drained.congr hprogress).mp hdrained)
  · rw [hhandle] at hpeer
    have hbefore := (Drained.congr hprogress).mp hdrained
    rw [hreceivers]
    by_cases hat : peer = permit.peer ∧ channel = permit.submission.parcel.channel
    · obtain ⟨rfl, rfl⟩ := hat
      have hfull := htimely permit hgate hbefore
      omega
    · rw [PerChannel.set_of_ne hat]
      exact h peer hpeer channel hbefore
  · rw [Drained, hafter] at hdrained
    rw [hhandle] at hpeer
    refine absurd ?_ hdrained
    exact List.mem_flatMap.mpr ⟨peer, List.mem_range.mpr hpeer,
      List.mem_map.mpr ⟨channel, SubmissionState.mem_channels channel, rfl⟩⟩
  · rw [Drained, hafter] at hdrained
    rw [hhandle] at hpeer
    rw [hreceivers]
    by_cases hat : peer = drained ∧ channel = which
    · obtain ⟨rfl, rfl⟩ := hat
      exact PerChannel.set_same _ _ _ _
    · rw [PerChannel.set_of_ne hat]
      refine h peer hpeer channel ?_
      rw [Drained, hprogress]
      intro hmem
      rcases List.mem_cons.mp hmem with heq | hleft
      · exact hat ⟨congrArg Prod.fst heq, congrArg Prod.snd heq⟩
      · exact hdrained hleft
  · rw [hreceivers]
    rw [hhandle] at hpeer
    refine h peer hpeer channel ?_
    rw [Drained, hprogress]
    exact List.not_mem_nil

/-- What was put into a drained stream stays there. -/
theorem not_clear_step (h : ¬race.Clear) {act : Act} (hstep : race.step act = some after) :
    ¬after.Clear := by
  intro hclear
  refine h fun peer hpeer channel hdrained => ?_
  obtain ⟨hhandle, hreceivers, hprogress⟩ | ⟨rfl, hhandle, hprogress, permit, hgate, hroom,
      hreceivers⟩ | ⟨hprogress, hhandle, hreceivers, hafter⟩ |
    ⟨drained, which, left, hprogress, hhandle, hreceivers, hafter⟩ |
    ⟨hprogress, hhandle, hreceivers, hafter⟩ := step_receivers hstep
  · have hempty := hclear peer (by rwa [hhandle]) channel ((Drained.congr hprogress).mpr hdrained)
    rwa [hreceivers] at hempty
  · have hempty := hclear peer (by rwa [hhandle]) channel ((Drained.congr hprogress).mpr hdrained)
    rw [hreceivers] at hempty
    by_cases hat : peer = permit.peer ∧ channel = permit.submission.parcel.channel
    · obtain ⟨rfl, rfl⟩ := hat
      rw [PerChannel.set_same] at hempty
      exact (List.append_eq_nil_iff.mp hempty).1
    · rwa [PerChannel.set_of_ne hat] at hempty
  · rw [Drained, hprogress] at hdrained
    exact absurd hdrained not_false
  · rw [Drained, hprogress] at hdrained
    have hempty := hclear peer (by rwa [hhandle]) channel (by
      rw [Drained, hafter]
      exact fun hleft => hdrained (List.mem_cons_of_mem _ hleft))
    rw [hreceivers] at hempty
    have hat : ¬(peer = drained ∧ channel = which) := by
      rintro ⟨rfl, rfl⟩
      exact hdrained List.mem_cons_self
    rwa [PerChannel.set_of_ne hat] at hempty
  · have hempty := hclear peer (by rwa [hhandle]) channel (by
      rw [Drained, hafter]
      trivial)
    rwa [hreceivers] at hempty

/-- A step that is not timely leaves a submission in a drained stream. -/
theorem Accounted.not_clear (h : race.Accounted) {act : Act} (hlate : ¬race.Timely act)
    (hstep : race.step act = some after) : ¬after.Clear := by
  cases act with
  | begin sender parcel => exact absurd trivial hlate
  | reserve sender => exact absurd trivial hlate
  | finish => exact absurd trivial hlate
  | fail => exact absurd trivial hlate
  | enqueue =>
    simp only [Timely, not_forall, not_le] at hlate
    obtain ⟨permit, hgate, hdrained, hroom⟩ := hlate
    intro hclear
    have hmember := h.gate permit hgate
    have hafter : ∃ queue, after.receivers permit.peer permit.submission.parcel.channel =
        queue ++ [permit.submission] ∧ after.handle = race.handle ∧
          after.progress = race.progress := by
      obtain ⟨sender, peer, submission, stage⟩ := permit
      simp only [Race.step, Race.enqueue] at hstep
      split at hstep
      · rename_i sender' peer' submission' hsame
        rw [hgate] at hsame
        cases hsame
        rw [if_neg (Nat.not_le.mpr hroom)] at hstep
        cases hstep
        exact ⟨_, PerChannel.set_same _ _ _ _, rfl, rfl⟩
      · cases hstep
    obtain ⟨queue, hqueue, hhandle, hprogress⟩ := hafter
    have hempty := hclear permit.peer (by rwa [hhandle]) _ ((Drained.congr hprogress).mpr hdrained)
    rw [hqueue] at hempty
    exact absurd hempty (by simp)

theorem submit_closed {handle : Handle} {overhead : Nat} {shared : SubmissionState}
    {receivers : PerChannel (List Submission)} (hclosed : shared.closed = true) (parcel : Parcel) :
    ∃ error, (handle.submit overhead shared receivers parcel).2.2 = .error error := by
  cases hsubmit : handle.submit overhead shared receivers parcel with
  | mk next rest =>
    obtain ⟨queues, result⟩ := rest
    cases result with
    | error error => exact ⟨error, rfl⟩
    | ok ticket =>
      obtain ⟨_, hreserve, _⟩ := Handle.submit_ok hsubmit
      have hopen := (SubmissionState.reserve_ok hreserve).1
      rw [hclosed] at hopen
      cases hopen

/-- When everything has returned, all is released exactly when the queues are empty. -/
theorem Accounted.released_iff (h : race.Accounted) (hended : race.Ended) :
    race.Released ↔ race.Clear := by
  obtain ⟨hreturned, hgate, _⟩ := hended
  have hprogress : race.progress = .returned := by
    revert hreturned
    cases race.progress <;> simp
  have hdrained : ∀ peer channel, race.Drained peer channel := by
    intro peer channel
    rw [Drained, hprogress]
    trivial
  constructor
  · intro hreleased peer hpeer channel _
    exact hreleased.receivers peer hpeer channel
  · intro hclear
    have hheld : ∀ peer < race.handle.members, ∀ channel, race.held peer channel = [] := by
      intro peer hpeer channel
      rw [held, hclear peer hpeer channel (hdrained peer channel),
        h.written peer hpeer channel (hdrained peer channel), hgate]
      rfl
    refine ⟨fun peer hpeer channel => ?_, fun peer hpeer => ?_, fun peer hpeer channel => ?_,
      submit_closed (h.closed hprogress)⟩
    · rw [h.holds.counts, hheld peer hpeer channel]
      rfl
    · rw [h.holds.bytes, hheld peer hpeer, hheld peer hpeer, hheld peer hpeer]
      rfl
    · exact hclear peer hpeer channel (hdrained peer channel)

/-- A run that ends with empty queues was timely all along. -/
theorem Accounted.along_iff (h : race.Accounted) (hclear : race.Clear) {acts : List Act}
    {final : Race} (hrun : exec Race.step race acts = some final) :
    final.Clear ↔ Along Race.step Timely race acts := by
  induction acts generalizing race with
  | nil =>
    cases hrun
    exact ⟨fun _ => trivial, fun _ => hclear⟩
  | cons act rest ih =>
    obtain ⟨next, hnext, hrest⟩ := exec_cons_some.mp hrun
    by_cases htimely : race.Timely act
    · rw [ih (h.step hnext) (hclear.step htimely hnext) hrest]
      constructor
      · intro halong
        refine ⟨htimely, fun other hother => ?_⟩
        rw [hnext] at hother
        cases hother
        exact halong
      · intro halong
        exact halong.2 next hnext
    · refine ⟨fun hfinal => absurd hfinal ?_, fun halong => absurd halong.1 htimely⟩
      exact exec_invariant_all (fun state => ¬state.Clear)
        (fun _ _ _ hstuck hstep => not_clear_step hstuck hstep) (h.not_clear htimely hnext) hrest

end Race

/-! ## Both drivers -/

/-- The states a driver goes through before it fails or stops. -/
inductive Backend.Live {σ ρ : Type} (backend : Backend σ ρ) (start : σ) : σ → Prop where
  | start : Live backend start start
  | trySend {driver : σ} (parcel : Parcel) (h : Live backend start driver) :
      Live backend start (backend.trySend driver parcel).1
  | drive {driver : σ} (maxEvents : Nat) (round : ρ) (h : Live backend start driver) :
      Live backend start (backend.drive driver maxEvents round).1
  | withPending {driver : σ} (events : List TransportEvent) (h : Live backend start driver) :
      Live backend start (backend.withPending driver events)
  | close {driver : σ} (h : Live backend start driver) : Live backend start (backend.close driver)

theorem Backend.Live.keeps {σ ρ : Type} {backend : Backend σ ρ} {start driver : σ}
    {inv : σ → Prop} {outstanding : σ → List SendTicket} {nextTicket : σ → Nat}
    (h : backend.Live start driver) (hlawful : backend.Lawful inv outstanding nextTicket)
    (hdrive : ∀ driver maxEvents round, inv driver → inv (backend.drive driver maxEvents round).1)
    (hstart : inv start) : inv driver := by
  induction h with
  | start => exact hstart
  | @trySend driver parcel _ ih =>
    cases hsend : backend.trySend driver parcel with
    | mk after result =>
      cases result with
      | error error => exact (hlawful.refused driver parcel after error ih hsend).1
      | ok ticket => exact (hlawful.sent driver parcel after ticket ih hsend).1
  | drive maxEvents round _ ih => exact hdrive _ maxEvents round ih
  | withPending events _ ih => exact (hlawful.withPending _ events ih).1
  | close _ ih => exact (hlawful.close _ ih).1

namespace Race

/-- The handles of a driver before it fails. -/
def idle (handle : Handle) (overhead : Nat) (shared : SubmissionState)
    (receivers : PerChannel (List Submission)) (written : PerChannel (List Nat)) : Race where
  handle := handle
  overhead := overhead
  shared := shared
  receivers := receivers
  written := written
  waiting := fun _ => none
  gate := none
  progress := .running
  answers := []

/-- A TCP driver before it fails. -/
def ofTcp (driver : TcpDriver) : Race :=
  idle driver.handle lengthBytes driver.shared driver.receivers fun peer channel =>
    (driver.peers peer channel).writes.map WriteFrame.reservedBytes

/-- An MPI driver before it fails. -/
def ofMpi (driver : MpiDriver) : Race :=
  idle driver.handle 0 driver.shared driver.receivers fun peer channel =>
    (driver.outbound peer channel).toList.map Outbound.reservedBytes

/-- A driver that is about to fail: one that was connected and used in any way. -/
inductive Start : Race → Prop where
  | tcp {config : TcpConfig} {capabilities : UInt64} {driver : TcpDriver}
      (h : TcpDriver.backend.Live (TcpDriver.fresh config capabilities) driver) :
      Start (ofTcp driver)
  | mpi {rank size : Nat} {hello : Hello} {limits : ProtocolLimits} {capabilities : UInt64}
      {driver : MpiDriver}
      (h : MpiDriver.backend.Live (MpiDriver.fresh rank size hello limits capabilities) driver) :
      Start (ofMpi driver)

theorem accounted_idle {handle : Handle} {overhead : Nat} {shared : SubmissionState}
    {receivers : PerChannel (List Submission)} {written : PerChannel (List Nat)}
    (h : shared.Holds fun peer channel =>
      (receivers peer channel).map Submission.reservedBytes ++ written peer channel) :
    (idle handle overhead shared receivers written).Accounted := by
  refine ⟨?_, by simp [idle], by simp [idle], fun _ _ _ hdrained => absurd hdrained not_false,
    by simp [idle]⟩
  refine h.perm (fun peer channel => ?_) rfl rfl
  simp [held, idle, pledged]

theorem Start.accounted {race : Race} (h : race.Start) : race.Accounted := by
  cases h with
  | @tcp config capabilities driver hlive =>
    have hkempt : driver.Kempt := hlive.keeps TcpDriver.lawful
      (fun _ maxEvents round hkempt => (TcpDriver.driven_drive hkempt maxEvents round).kempt)
      (TcpDriver.fresh_kempt config capabilities)
    exact accounted_idle hkempt.reserved
  | @mpi rank size hello limits capabilities driver hlive =>
    have hkempt : driver.Kempt := hlive.keeps MpiDriver.lawful
      (fun _ maxEvents round hkempt => (MpiDriver.driven_drive hkempt maxEvents round).kempt)
      (MpiDriver.fresh_kempt rank size hello limits capabilities)
    exact accounted_idle hkempt

theorem Start.clear {race : Race} (h : race.Start) : race.Clear := by
  intro peer _ channel hdrained
  cases h <;> exact absurd hdrained not_false

/-- When `fail` and every call of `try_send` have returned, everything is released exactly
    when no call enqueued its submission into a stream `fail` had drained. -/
theorem fail_releases_iff {race final : Race} (hstart : race.Start) {acts : List Act}
    (hrun : exec Race.step race acts = some final) (hended : final.Ended) :
    final.Released ↔ Along Race.step Timely race acts := by
  have haccounted : final.Accounted := exec_invariant_all Accounted
    (fun _ _ _ h hstep => h.step hstep) hstart.accounted hrun
  rw [haccounted.released_iff hended]
  exact hstart.accounted.along_iff hstart.clear hrun

/-- A call that nothing interrupts does what `try_send` does. -/
theorem exec_alone {race : Race} (hgate : race.gate = none) {sender : Nat}
    (hidle : race.waiting sender = none) (parcel : Parcel) :
    ∃ acts, exec Race.step race acts =
      match race.handle.submit race.overhead race.shared race.receivers parcel with
      | (shared, receivers, result) =>
        some ({ race with shared := shared, receivers := receivers }.answer sender result) := by
  have hforget : ∀ entry,
      Function.update (Function.update race.waiting sender entry) sender none = race.waiting := by
    intro entry
    rw [Function.update_idem, ← hidle, Function.update_eq_self]
  rw [Handle.submit_eq]
  cases hcheck : race.handle.check race.overhead parcel with
  | error error =>
    refine ⟨[.begin sender parcel], ?_⟩
    simp [exec, step, Race.begin, hidle, hcheck]
  | ok checked =>
    obtain ⟨peer, bytes⟩ := checked
    cases hreserve : race.shared.reserve peer parcel.channel bytes with
    | error error =>
      refine ⟨[.begin sender parcel, .reserve sender], ?_⟩
      simp [exec, step, Race.begin, Race.reserve, hidle, hcheck, hgate, hreserve, hforget]
    | ok granted =>
      obtain ⟨ticket, reserved⟩ := granted
      refine ⟨[.begin sender parcel, .reserve sender, .enqueue, .finish], ?_⟩
      by_cases hfull : race.handle.limits.maxQueuedParcelsPerPeer ≤
          (race.receivers peer parcel.channel).length
      · simp [exec, step, Race.begin, Race.reserve, Race.enqueue, Race.finish, Race.answer, hidle,
          hcheck, hgate, hreserve, hforget, hfull]
      · simp [exec, step, Race.begin, Race.reserve, Race.enqueue, Race.finish, Race.answer, hidle,
          hcheck, hgate, hreserve, hforget, hfull]

/-- A member that fails while a call of `try_send` is on its way. -/
def sampleRace : Race := ofTcp (sampleDriver 1)

theorem sampleRace_start : sampleRace.Start := .tcp .start

/-- The call returns before `fail` comes to its stream. -/
def sampleTimely : List Act :=
  [.begin 0 (sampleParcel [5]), .reserve 0, .fail, .enqueue, .finish] ++ List.replicate 7 .fail

/-- The call enqueues after `fail` has drained its stream. -/
def sampleLate : List Act :=
  [.begin 0 (sampleParcel [5]), .reserve 0] ++ List.replicate 7 .fail ++ [.enqueue, .finish, .fail]

set_option maxRecDepth 10000 in
theorem fail_releases_sample :
    ∃ final, exec Race.step sampleRace sampleTimely = some final ∧ final.Ended ∧ final.Released := by
  obtain ⟨final, hrun, hended⟩ :
      ∃ final, exec Race.step sampleRace sampleTimely = some final ∧ final.Ended :=
    ⟨_, rfl, rfl, rfl, fun sender => by
      simp [sampleRace, ofTcp, idle, drain, Race.answer]⟩
  refine ⟨final, hrun, hended, (fail_releases_iff sampleRace_start hrun hended).mpr ?_⟩
  decide +kernel

set_option maxRecDepth 10000 in
/-- The reservation of a submission enqueued between its stream's drain and the close is
    never given back. -/
theorem fail_leaves_submission :
    ∃ final, sampleRace.Start ∧ exec Race.step sampleRace sampleLate = some final ∧
      final.Ended ∧ final.shared.counts 0 .action = 1 ∧ ¬final.Released := by
  obtain ⟨final, hrun, hended, hcount, hmembers⟩ :
      ∃ final, exec Race.step sampleRace sampleLate = some final ∧ final.Ended ∧
        final.shared.counts 0 .action = 1 ∧ final.handle.members = 2 :=
    ⟨_, rfl, ⟨rfl, rfl, fun sender => by
      simp [sampleRace, ofTcp, idle, drain, Race.answer]⟩, rfl, rfl⟩
  refine ⟨final, sampleRace_start, hrun, hended, hcount, fun hreleased => ?_⟩
  have hzero := hreleased.counts 0 (by omega) .action
  omega

end Race

end Hataori.Transport
