import Hataori.Lib.Machine
import Hataori.Transport.Submission

/-!
# Reservations, one atomic operation at a time

`SubmissionState` of `hataori-runtime-foundation/src/transport.rs` with the handles and the
driver around it. A call holds the gate from its reservation until it commits its permit or
has given everything back, so only one call is inside; the driver takes submissions off the
channels and releases them without the gate, between any two steps of that call. A count is
raised before it is compared with its limit, so a counter is what is outstanding together with
what the call with the gate has put on top of it.
-/

namespace Hataori.Transport

open Hataori.Runtime Lib.Machine

/-- `fetch_add` of an `AtomicUsize`, which wraps. -/
def atomicAdd (value amount : Nat) : Nat :=
  if value + amount < u64Bound then value + amount else value + amount - u64Bound

/-- `fetch_sub` of an `AtomicUsize`, which wraps. -/
def atomicSub (value amount : Nat) : Nat :=
  if amount ≤ value then value - amount else value + u64Bound - amount

/-- What a call asks of the gate: the arguments of `reserve` and the parcel to submit. -/
structure Request where
  peer : Nat
  parcel : Parcel
  bytes : Nat

/-- `channel` of a request. -/
def Request.channel (request : Request) : Channel := request.parcel.channel

/-- How far the call with the gate is. -/
inductive Reserving where
  | entered
  | counted (count : Nat)
  | charged (total : Nat)
  | permitted (ticket : SendTicket)
  | enqueued (ticket : SendTicket)
  | refunding (error : TransportError)
  | uncounting (error : TransportError)

/-- Whether the call has its count on top of what is outstanding. -/
def Reserving.counts : Reserving → Nat
  | .entered => 0
  | .counted _ => 1
  | .charged _ => 1
  | .permitted _ => 1
  | .enqueued _ => 0
  | .refunding _ => 1
  | .uncounting _ => 1

/-- Whether the call has its bytes on top of what is outstanding. -/
def Reserving.charges : Reserving → Nat
  | .entered => 0
  | .counted _ => 0
  | .charged _ => 1
  | .permitted _ => 1
  | .enqueued _ => 0
  | .refunding _ => 1
  | .uncounting _ => 0

/-- The bytes some submissions have reserved. -/
def load (submissions : List Submission) : Nat :=
  (submissions.map Submission.reservedBytes).sum

@[simp] theorem load_nil : load [] = 0 := rfl

@[simp] theorem load_cons (submission : Submission) (rest : List Submission) :
    load (submission :: rest) = submission.reservedBytes + load rest := rfl

@[simp] theorem load_append (first second : List Submission) :
    load (first ++ second) = load first + load second := by
  simp [load]

theorem load_perm {first second : List Submission} (h : first.Perm second) :
    load first = load second :=
  (h.map _).sum_nat

/-- The reservations of a transport. `receivers` are the bounded channels, `taken` what the
    driver has taken off them, `releasing` the releases that have given back their bytes and
    not yet their count. `wrapped` records that an atomic operation left its range. -/
structure Ledger where
  shared : SubmissionState
  gate : Option (Request × Reserving)
  receivers : PerChannel (List Submission)
  taken : PerChannel (List Submission)
  releasing : PerChannel Nat
  answers : List (Except TransportError SendTicket)
  wrapped : Bool

namespace Ledger

/-- `SubmissionState::new` and `submission_channels`. -/
def new (limits : ProtocolLimits) : Ledger where
  shared := .new limits
  gate := none
  receivers := fun _ _ => []
  taken := fun _ _ => []
  releasing := fun _ _ => 0
  answers := []
  wrapped := false

/-- `counts[slot].fetch_add(1)`. -/
def addCount (ledger : Ledger) (peer : Nat) (channel : Channel) : Ledger :=
  { ledger with
    shared := { ledger.shared with
      counts := ledger.shared.counts.set peer channel
        (atomicAdd (ledger.shared.counts peer channel) 1) }
    wrapped := ledger.wrapped || decide (u64Bound ≤ ledger.shared.counts peer channel + 1) }

/-- `counts[slot].fetch_sub(1)`. -/
def subCount (ledger : Ledger) (peer : Nat) (channel : Channel) : Ledger :=
  { ledger with
    shared := { ledger.shared with
      counts := ledger.shared.counts.set peer channel
        (atomicSub (ledger.shared.counts peer channel) 1) }
    wrapped := ledger.wrapped || decide (ledger.shared.counts peer channel < 1) }

/-- `bytes[peer].fetch_add(bytes)`. -/
def addBytes (ledger : Ledger) (peer bytes : Nat) : Ledger :=
  { ledger with
    shared := { ledger.shared with
      bytes := Function.update ledger.shared.bytes peer
        (atomicAdd (ledger.shared.bytes peer) bytes) }
    wrapped := ledger.wrapped || decide (u64Bound ≤ ledger.shared.bytes peer + bytes) }

/-- `bytes[peer].fetch_sub(bytes)`. -/
def subBytes (ledger : Ledger) (peer bytes : Nat) : Ledger :=
  { ledger with
    shared := { ledger.shared with
      bytes := Function.update ledger.shared.bytes peer
        (atomicSub (ledger.shared.bytes peer) bytes) }
    wrapped := ledger.wrapped || decide (ledger.shared.bytes peer < bytes) }

/-- The call with the gate returns, and the gate is free again. -/
def answer (ledger : Ledger) (result : Except TransportError SendTicket) : Ledger :=
  { ledger with gate := none, answers := ledger.answers ++ [result] }

/-- `reserve` up to the load of `closed`, which only changes under the gate. The parcels that
    are reserved for are all in memory, so their bytes are not more than an address space. -/
def lock (ledger : Ledger) (request : Request) : Option Ledger :=
  match ledger.gate with
  | some _ => none
  | none =>
    if u64Bound ≤ ledger.shared.bytes request.peer + request.bytes ∨
        u64Bound ≤ ledger.shared.counts request.peer request.channel + 1 then none
    else if ledger.shared.closed then some (ledger.answer (.error .shutdown))
    else some { ledger with gate := some (request, .entered) }

/-- The next step of the call with the gate, but for what it does with its permit. -/
def advance (ledger : Ledger) : Option Ledger :=
  match ledger.gate with
  | none => none
  | some (request, stage) =>
    let limits := ledger.shared.limits
    let count := ledger.shared.counts request.peer request.channel
    let total := ledger.shared.bytes request.peer
    match stage with
    | .entered =>
      some { ledger.addCount request.peer request.channel with
        gate := some (request, .counted (count + 1)) }
    | .counted count =>
      if limits.maxQueuedParcelsPerPeer < count then
        some { ledger with gate := some (request, .uncounting
          (.queueFull request.channel limits.maxQueuedParcelsPerPeer)) }
      else
        some { ledger.addBytes request.peer request.bytes with
          gate := some (request, .charged (total + request.bytes)) }
    | .charged total =>
      let limit := SubmissionState.byteLimit limits request.channel
      if limit < total then
        some { ledger with gate := some (request, .refunding (.byteLimit total limit)) }
      else if ledger.shared.nextTicket = 0 ∨ ledger.shared.nextTicket = u64Bound - 1 then
        some { ledger with gate := some (request, .refunding (.peer "send ticket overflow")) }
      else
        some { ledger with
          shared := { ledger.shared with nextTicket := ledger.shared.nextTicket + 1 }
          gate := some (request, .permitted ⟨ledger.shared.nextTicket⟩) }
    | .permitted _ => none
    | .enqueued ticket => some (ledger.answer (.ok ticket))
    | .refunding error =>
      some { ledger.subBytes request.peer request.bytes with
        gate := some (request, .uncounting error) }
    | .uncounting error =>
      some ((ledger.subCount request.peer request.channel).answer (.error error))

/-- `SyncSender::try_send` with the permit held; a full channel drops the permit. -/
def enqueue (ledger : Ledger) : Option Ledger :=
  match ledger.gate with
  | some (request, .permitted ticket) =>
    let queue := ledger.receivers request.peer request.channel
    let limit := ledger.shared.limits.maxQueuedParcelsPerPeer
    if limit ≤ queue.length then
      some { ledger with gate := some (request, .refunding (.queueFull request.channel limit)) }
    else
      some { ledger with
        receivers := ledger.receivers.set request.peer request.channel
          (queue ++ [⟨ticket, request.parcel, request.bytes⟩])
        gate := some (request, .enqueued ticket) }
  | _ => none

/-- The permit is dropped uncommitted, as when the receiver is gone. -/
def drop (ledger : Ledger) (error : TransportError) : Option Ledger :=
  match ledger.gate with
  | some (request, .permitted _) =>
    some { ledger with gate := some (request, .refunding error) }
  | _ => none

/-- `close`. -/
def close (ledger : Ledger) : Option Ledger :=
  match ledger.gate with
  | some _ => none
  | none => some { ledger with shared := ledger.shared.close }

/-- The driver takes the first submission off a channel. -/
def take (ledger : Ledger) (peer : Nat) (channel : Channel) : Option Ledger :=
  match ledger.receivers peer channel with
  | [] => none
  | submission :: rest =>
    some { ledger with
      receivers := ledger.receivers.set peer channel rest
      taken := ledger.taken.set peer channel (ledger.taken peer channel ++ [submission]) }

/-- The first half of `release`, of a submission the driver is done with. -/
def release (ledger : Ledger) (peer : Nat) (channel : Channel) (submission : Submission) :
    Option Ledger :=
  if submission ∈ ledger.taken peer channel then
    some { ledger.subBytes peer submission.reservedBytes with
      taken := ledger.taken.set peer channel ((ledger.taken peer channel).erase submission)
      releasing := ledger.releasing.set peer channel (ledger.releasing peer channel + 1) }
  else none

/-- The second half of `release`. -/
def uncount (ledger : Ledger) (peer : Nat) (channel : Channel) : Option Ledger :=
  if ledger.releasing peer channel = 0 then none
  else
    some { ledger.subCount peer channel with
      releasing := ledger.releasing.set peer channel (ledger.releasing peer channel - 1) }

/-- The steps of the calls and of the driver. -/
inductive Act where
  | lock (request : Request)
  | advance
  | enqueue
  | drop (error : TransportError)
  | close
  | take (peer : Nat) (channel : Channel)
  | release (peer : Nat) (channel : Channel) (submission : Submission)
  | uncount (peer : Nat) (channel : Channel)

/-- One step; `none` when it cannot be taken. -/
def step (ledger : Ledger) : Act → Option Ledger
  | .lock request => ledger.lock request
  | .advance => ledger.advance
  | .enqueue => ledger.enqueue
  | .drop error => ledger.drop error
  | .close => ledger.close
  | .take peer channel => ledger.take peer channel
  | .release peer channel submission => ledger.release peer channel submission
  | .uncount peer channel => ledger.uncount peer channel

/-! ## What is outstanding -/

/-- The submissions of a channel whose release has not returned. -/
def held (ledger : Ledger) (peer : Nat) (channel : Channel) : Nat :=
  (ledger.receivers peer channel).length + (ledger.taken peer channel).length +
    ledger.releasing peer channel

/-- The bytes they still reserve. -/
def weight (ledger : Ledger) (peer : Nat) (channel : Channel) : Nat :=
  load (ledger.receivers peer channel) + load (ledger.taken peer channel)

/-- The bytes reserved toward a peer. -/
def loaded (ledger : Ledger) (peer : Nat) : Nat :=
  ledger.weight peer .control + ledger.weight peer .action + ledger.weight peer .bulk

/-- The count of the call with the gate. -/
def pendingCount (ledger : Ledger) (peer : Nat) (channel : Channel) : Nat :=
  match ledger.gate with
  | some (request, stage) =>
    if peer = request.peer ∧ channel = request.channel then stage.counts else 0
  | none => 0

/-- The bytes of the call with the gate. -/
def pendingBytes (ledger : Ledger) (peer : Nat) : Nat :=
  match ledger.gate with
  | some (request, stage) => if peer = request.peer then stage.charges * request.bytes else 0
  | none => 0

/-- The tickets of the permits that were committed. -/
def committed (ledger : Ledger) : List SendTicket :=
  ledger.answers.filterMap Except.toOption

/-- What the call with the gate has made sure of. What is outstanding only becomes less while
    it holds the gate, so what it saw once remains an upper bound. -/
def StageHolds (ledger : Ledger) (request : Request) : Reserving → Prop
  | .entered =>
    ledger.held request.peer request.channel + 1 < u64Bound ∧
      ledger.loaded request.peer + request.bytes < u64Bound
  | .counted count =>
    ledger.held request.peer request.channel + 1 ≤ count ∧
      ledger.loaded request.peer + request.bytes < u64Bound
  | .charged total =>
    ledger.held request.peer request.channel + 1 ≤ ledger.shared.limits.maxQueuedParcelsPerPeer ∧
      ledger.loaded request.peer + request.bytes ≤ total
  | .permitted ticket =>
    ledger.held request.peer request.channel + 1 ≤ ledger.shared.limits.maxQueuedParcelsPerPeer ∧
      ledger.loaded request.peer + request.bytes ≤
        SubmissionState.byteLimit ledger.shared.limits request.channel ∧
      ticket.get < ledger.shared.nextTicket ∧ ticket ∉ ledger.committed
  | .enqueued ticket => ticket.get < ledger.shared.nextTicket ∧ ticket ∉ ledger.committed
  | .refunding _ => True
  | .uncounting _ => True

/-- The counters are what is outstanding, which is within the limits. -/
structure Balanced (ledger : Ledger) : Prop where
  counts : ∀ peer channel, ledger.shared.counts peer channel =
    ledger.held peer channel + ledger.pendingCount peer channel
  bytes : ∀ peer, ledger.shared.bytes peer = ledger.loaded peer + ledger.pendingBytes peer
  held : ∀ peer channel, ledger.held peer channel ≤ ledger.shared.limits.maxQueuedParcelsPerPeer
  loaded : ∀ peer, ledger.loaded peer ≤ ledger.shared.limits.maxInflightBytesPerPeer
  data : ∀ peer, ledger.weight peer .action + ledger.weight peer .bulk ≤
    SubmissionState.byteLimit ledger.shared.limits .action
  stage : ∀ request stage, ledger.gate = some (request, stage) → ledger.StageHolds request stage
  fresh : ∀ ticket ∈ ledger.committed, ticket.get < ledger.shared.nextTicket
  nodup : ledger.committed.Nodup
  wrapped : ledger.wrapped = false

variable {ledger after : Ledger} {request : Request} {peer : Nat} {channel : Channel}

theorem pendingCount_gate (h : ledger.gate = some (request, stage)) (peer : Nat)
    (channel : Channel) : ledger.pendingCount peer channel =
      if peer = request.peer ∧ channel = request.channel then stage.counts else 0 := by
  rw [pendingCount, h]

theorem pendingBytes_gate (h : ledger.gate = some (request, stage)) (peer : Nat) :
    ledger.pendingBytes peer = if peer = request.peer then stage.charges * request.bytes else 0 := by
  rw [pendingBytes, h]

theorem pendingCount_free (h : ledger.gate = none) (peer : Nat) (channel : Channel) :
    ledger.pendingCount peer channel = 0 := by
  rw [pendingCount, h]

theorem pendingBytes_free (h : ledger.gate = none) (peer : Nat) : ledger.pendingBytes peer = 0 := by
  rw [pendingBytes, h]

/-! ## One atomic operation -/

theorem addCount_eq (h : ledger.shared.counts peer channel + 1 < u64Bound) :
    ledger.addCount peer channel = { ledger with
      shared := { ledger.shared with
        counts := ledger.shared.counts.set peer channel
          (ledger.shared.counts peer channel + 1) } } := by
  simp [addCount, atomicAdd, h, not_le.mpr h]

theorem subCount_eq (h : 1 ≤ ledger.shared.counts peer channel) :
    ledger.subCount peer channel = { ledger with
      shared := { ledger.shared with
        counts := ledger.shared.counts.set peer channel
          (ledger.shared.counts peer channel - 1) } } := by
  simp [subCount, atomicSub, h]
  omega

theorem addBytes_eq {bytes : Nat} (h : ledger.shared.bytes peer + bytes < u64Bound) :
    ledger.addBytes peer bytes = { ledger with
      shared := { ledger.shared with
        bytes := Function.update ledger.shared.bytes peer
          (ledger.shared.bytes peer + bytes) } } := by
  simp [addBytes, atomicAdd, h, not_le.mpr h]

theorem subBytes_eq {bytes : Nat} (h : bytes ≤ ledger.shared.bytes peer) :
    ledger.subBytes peer bytes = { ledger with
      shared := { ledger.shared with
        bytes := Function.update ledger.shared.bytes peer
          (ledger.shared.bytes peer - bytes) } } := by
  simp [subBytes, atomicSub, h]

theorem Balanced.new (limits : ProtocolLimits) : Balanced (.new limits) where
  counts _ _ := rfl
  bytes _ := rfl
  held _ _ := Nat.zero_le _
  loaded _ := Nat.zero_le _
  data _ := Nat.zero_le _
  stage := by
    intro request stage hgate
    cases hgate
  fresh := by
    intro ticket hticket
    cases hticket
  nodup := .nil
  wrapped := rfl

/-- The call with the gate moves on, and the counters with it. -/
theorem Balanced.regate (h : ledger.Balanced) {stage next : Reserving}
    (hgate : ledger.gate = some (request, stage)) {counts : PerChannel Nat} {bytes : Nat → Nat}
    {nextTicket : Nat} (hnext : ledger.shared.nextTicket ≤ nextTicket)
    (hcounts : ∀ p c, ¬(p = request.peer ∧ c = request.channel) →
      counts p c = ledger.shared.counts p c)
    (hcount : counts request.peer request.channel + stage.counts =
      ledger.shared.counts request.peer request.channel + next.counts)
    (hbytes : ∀ p, p ≠ request.peer → bytes p = ledger.shared.bytes p)
    (htotal : bytes request.peer + stage.charges * request.bytes =
      ledger.shared.bytes request.peer + next.charges * request.bytes)
    (hstage : StageHolds { ledger with
      shared := { ledger.shared with
        counts := counts, bytes := bytes, nextTicket := nextTicket } } request next) :
    Balanced { ledger with
      shared := { ledger.shared with counts := counts, bytes := bytes, nextTicket := nextTicket }
      gate := some (request, next) } where
  counts p c := by
    have hold := h.counts p c
    rw [pendingCount_gate hgate] at hold
    change counts p c = ledger.held p c +
      if p = request.peer ∧ c = request.channel then next.counts else 0
    by_cases hat : p = request.peer ∧ c = request.channel
    · obtain ⟨rfl, rfl⟩ := hat
      simp only [and_self, if_true] at hold ⊢
      omega
    · rw [if_neg hat] at hold ⊢
      rw [hcounts p c hat, hold]
  bytes p := by
    have hold := h.bytes p
    rw [pendingBytes_gate hgate] at hold
    change bytes p = ledger.loaded p +
      if p = request.peer then next.charges * request.bytes else 0
    by_cases hat : p = request.peer
    · subst hat
      simp only [if_true] at hold ⊢
      omega
    · rw [if_neg hat] at hold ⊢
      rw [hbytes p hat, hold]
  held := h.held
  loaded := h.loaded
  data := h.data
  stage := by
    intro other found hfound
    cases hfound
    cases next <;> exact hstage
  fresh ticket hticket := lt_of_lt_of_le (h.fresh ticket hticket) hnext
  nodup := h.nodup
  wrapped := h.wrapped

theorem committed_error (ledger : Ledger) (error : TransportError) :
    (ledger.answer (.error error)).committed = ledger.committed := by
  change (ledger.answers ++ [Except.error error]).filterMap Except.toOption = _
  rw [List.filterMap_append]
  exact List.append_nil _

theorem committed_ok (ledger : Ledger) (ticket : SendTicket) :
    (ledger.answer (.ok ticket)).committed = ledger.committed ++ [ticket] := by
  change (ledger.answers ++ [Except.ok ticket]).filterMap Except.toOption = _
  rw [List.filterMap_append]
  rfl

/-- The call with the gate has nothing left on top of what is outstanding. -/
theorem Balanced.free (h : ledger.Balanced) {stage : Reserving}
    (hgate : ledger.gate = some (request, stage)) {counts : PerChannel Nat}
    (hcounts : ∀ p c, ¬(p = request.peer ∧ c = request.channel) →
      counts p c = ledger.shared.counts p c)
    (hcount : counts request.peer request.channel + stage.counts =
      ledger.shared.counts request.peer request.channel)
    (hcharges : stage.charges = 0) :
    Balanced { ledger with shared := { ledger.shared with counts := counts }, gate := none } where
  counts p c := by
    have hold := h.counts p c
    rw [pendingCount_gate hgate] at hold
    change counts p c = ledger.held p c + 0
    by_cases hat : p = request.peer ∧ c = request.channel
    · obtain ⟨rfl, rfl⟩ := hat
      simp only [and_self, if_true] at hold
      omega
    · rw [if_neg hat] at hold
      rw [hcounts p c hat, hold]
  bytes p := by
    have hold := h.bytes p
    rw [pendingBytes_gate hgate, hcharges, Nat.zero_mul, ite_self] at hold
    exact hold
  held := h.held
  loaded := h.loaded
  data := h.data
  stage := by
    intro other found hfound
    cases hfound
  fresh := h.fresh
  nodup := h.nodup
  wrapped := h.wrapped

/-- A call that holds nothing returns. -/
theorem Balanced.answer (h : ledger.Balanced) (hgate : ledger.gate = none)
    {result : Except TransportError SendTicket}
    (hfresh : ∀ ticket, result = .ok ticket →
      ticket.get < ledger.shared.nextTicket ∧ ticket ∉ ledger.committed) :
    (ledger.answer result).Balanced where
  counts p c := by
    have hold := h.counts p c
    rw [pendingCount_free hgate] at hold
    exact hold
  bytes p := by
    have hold := h.bytes p
    rw [pendingBytes_free hgate] at hold
    exact hold
  held := h.held
  loaded := h.loaded
  data := h.data
  stage := by
    intro request stage hgate
    cases hgate
  fresh := by
    intro ticket hticket
    cases result with
    | error error =>
      rw [committed_error] at hticket
      exact h.fresh ticket hticket
    | ok found =>
      rw [committed_ok] at hticket
      rcases List.mem_append.mp hticket with hold | hnew
      · exact h.fresh ticket hold
      · rw [List.mem_singleton.mp hnew]
        exact (hfresh found rfl).1
  nodup := by
    cases result with
    | error error =>
      rw [committed_error]
      exact h.nodup
    | ok ticket =>
      rw [committed_ok]
      exact List.nodup_append.mpr ⟨h.nodup, List.nodup_singleton ticket, fun old hold found hfound =>
        fun heq => (hfresh ticket rfl).2 (by rw [← List.mem_singleton.mp hfound, ← heq]; exact hold)⟩
  wrapped := h.wrapped

theorem Balanced.lock (h : ledger.Balanced) (hstep : ledger.lock request = some after) :
    after.Balanced := by
  unfold Ledger.lock at hstep
  split at hstep
  · cases hstep
  rename_i hgate
  split at hstep
  · cases hstep
  rename_i hmemory
  have hcount := h.counts request.peer request.channel
  have hbytes := h.bytes request.peer
  rw [pendingCount_free hgate] at hcount
  rw [pendingBytes_free hgate] at hbytes
  split at hstep
  · cases hstep
    exact h.answer hgate (by simp)
  · cases hstep
    refine ⟨?_, ?_, h.held, h.loaded, h.data, ?_, h.fresh, h.nodup, h.wrapped⟩
    · intro p c
      have hold := h.counts p c
      rw [pendingCount_free hgate] at hold
      simp only [pendingCount, Reserving.counts, ite_self]
      exact hold
    · intro p
      have hold := h.bytes p
      rw [pendingBytes_free hgate] at hold
      simp only [pendingBytes, Reserving.charges, Nat.zero_mul, ite_self]
      exact hold
    · intro other stage hother
      cases hother
      change ledger.held request.peer request.channel + 1 < u64Bound ∧
        ledger.loaded request.peer + request.bytes < u64Bound
      omega

/-- What the gate's own counters are before it moves on. -/
theorem Balanced.mine (h : ledger.Balanced) {stage : Reserving}
    (hgate : ledger.gate = some (request, stage)) :
    ledger.shared.counts request.peer request.channel =
        ledger.held request.peer request.channel + stage.counts ∧
      ledger.shared.bytes request.peer =
        ledger.loaded request.peer + stage.charges * request.bytes := by
  have hcount := h.counts request.peer request.channel
  have hbytes := h.bytes request.peer
  rw [pendingCount_gate hgate, if_pos ⟨rfl, rfl⟩] at hcount
  rw [pendingBytes_gate hgate, if_pos rfl] at hbytes
  exact ⟨hcount, hbytes⟩

theorem byteLimit_le (limits : ProtocolLimits) (channel : Channel) :
    SubmissionState.byteLimit limits channel ≤ limits.maxInflightBytesPerPeer := by
  cases channel
  · exact Nat.le_refl _
  · exact Nat.sub_le _ _
  · exact Nat.sub_le _ _

theorem Balanced.advance (h : ledger.Balanced) (hstep : ledger.advance = some after) :
    after.Balanced := by
  unfold Ledger.advance at hstep
  split at hstep
  · cases hstep
  rename_i request stage hgate
  obtain ⟨hcount, hbytes⟩ := h.mine hgate
  have hstage := h.stage request stage hgate
  cases stage with
  | entered =>
    simp only [Reserving.counts, Reserving.charges] at hcount hbytes
    obtain ⟨hheld, hloaded⟩ := hstage
    rw [addCount_eq (by omega)] at hstep
    cases hstep
    refine h.regate hgate (Nat.le_refl _) (fun p c hat => PerChannel.set_of_ne hat) ?_
      (fun _ _ => rfl) rfl ⟨?_, hloaded⟩
    · rw [PerChannel.set_same]
      rfl
    · change ledger.held request.peer request.channel + 1 ≤ _
      omega
  | counted count =>
    simp only [Reserving.counts, Reserving.charges] at hcount hbytes
    obtain ⟨hheld, hloaded⟩ := hstage
    dsimp only at hstep
    split at hstep
    · cases hstep
      exact h.regate hgate (Nat.le_refl _) (fun _ _ _ => rfl) rfl (fun _ _ => rfl) rfl trivial
    · rename_i hroom
      rw [addBytes_eq (by omega)] at hstep
      cases hstep
      refine h.regate hgate (Nat.le_refl _) (fun _ _ _ => rfl) rfl
        (fun p hp => Function.update_of_ne hp _ _) ?_ ⟨?_, ?_⟩
      · rw [Function.update_self]
        simp only [Reserving.charges]
        omega
      · change ledger.held request.peer request.channel + 1 ≤
          ledger.shared.limits.maxQueuedParcelsPerPeer
        omega
      · change ledger.loaded request.peer + request.bytes ≤ _
        omega
  | charged total =>
    obtain ⟨hheld, hloaded⟩ := hstage
    dsimp only at hstep
    split at hstep
    · cases hstep
      exact h.regate hgate (Nat.le_refl _) (fun _ _ _ => rfl) rfl (fun _ _ => rfl) rfl trivial
    rename_i hroom
    split at hstep
    · cases hstep
      exact h.regate hgate (Nat.le_refl _) (fun _ _ _ => rfl) rfl (fun _ _ => rfl) rfl trivial
    · cases hstep
      refine h.regate hgate (Nat.le_succ _) (fun _ _ _ => rfl) rfl (fun _ _ => rfl) rfl
        ⟨hheld, ?_, Nat.lt_succ_self _, ?_⟩
      · change ledger.loaded request.peer + request.bytes ≤
          SubmissionState.byteLimit ledger.shared.limits request.channel
        omega
      · intro hold
        exact absurd (h.fresh _ hold) (Nat.lt_irrefl _)
  | permitted ticket => cases hstep
  | enqueued ticket =>
    cases hstep
    refine (h.free hgate (fun _ _ _ => rfl) rfl rfl).answer rfl ?_
    rintro found ⟨⟩
    exact hstage
  | refunding error =>
    simp only [Reserving.charges, Nat.one_mul] at hbytes
    dsimp only at hstep
    rw [subBytes_eq (by omega)] at hstep
    cases hstep
    refine h.regate hgate (Nat.le_refl _) (fun _ _ _ => rfl) rfl
      (fun p hp => Function.update_of_ne hp _ _) ?_ trivial
    rw [Function.update_self]
    simp only [Reserving.charges]
    omega
  | uncounting error =>
    simp only [Reserving.counts] at hcount
    dsimp only at hstep
    rw [subCount_eq (by omega)] at hstep
    cases hstep
    refine (h.free hgate (fun p c hat => PerChannel.set_of_ne hat) ?_ rfl).answer rfl ?_
    · rw [PerChannel.set_same]
      simp only [Reserving.counts]
      omega
    · rintro found ⟨⟩

theorem Balanced.drop (h : ledger.Balanced) {error : TransportError}
    (hstep : ledger.drop error = some after) : after.Balanced := by
  unfold Ledger.drop at hstep
  split at hstep
  · rename_i request ticket hgate
    cases hstep
    exact h.regate hgate (Nat.le_refl _) (fun _ _ _ => rfl) rfl (fun _ _ => rfl) rfl trivial
  · cases hstep

theorem Balanced.close (h : ledger.Balanced) (hstep : ledger.close = some after) :
    after.Balanced := by
  unfold Ledger.close at hstep
  split at hstep
  · cases hstep
  rename_i hgate
  cases hstep
  refine ⟨h.counts, h.bytes, h.held, h.loaded, h.data, ?_, h.fresh, h.nodup, h.wrapped⟩
  intro request stage hsome
  change ledger.gate = some (request, stage) at hsome
  rw [hgate] at hsome
  cases hsome

/-! ## What the driver and the channels hold -/

/-- One channel holds other submissions, and the bytes reserved toward its peer change with
    what they reserve. -/
theorem loaded_of {ledger after : Ledger} {peer : Nat} {channel : Channel}
    (hothers : ∀ p c, ¬(p = peer ∧ c = channel) → after.weight p c = ledger.weight p c) (p : Nat) :
    (p = peer → after.loaded p + ledger.weight p channel =
      ledger.loaded p + after.weight p channel) ∧
    (p ≠ peer → after.loaded p = ledger.loaded p) := by
  unfold loaded
  constructor
  · rintro rfl
    cases channel with
    | control =>
      rw [hothers p .action (by simp), hothers p .bulk (by simp)]
      omega
    | action =>
      rw [hothers p .control (by simp), hothers p .bulk (by simp)]
      omega
    | bulk =>
      rw [hothers p .control (by simp), hothers p .action (by simp)]
      omega
  · intro hp
    rw [hothers p .control (fun hat => hp hat.1), hothers p .action (fun hat => hp hat.1),
      hothers p .bulk (fun hat => hp hat.1)]

/-- Less is outstanding, and the call with the gate has what it had. -/
theorem StageHolds.mono {stage : Reserving} (h : ledger.StageHolds request stage)
    (hheld : after.held request.peer request.channel ≤ ledger.held request.peer request.channel)
    (hloaded : after.loaded request.peer ≤ ledger.loaded request.peer)
    (hlimits : after.shared.limits = ledger.shared.limits)
    (hnext : after.shared.nextTicket = ledger.shared.nextTicket)
    (hanswers : after.answers = ledger.answers) : after.StageHolds request stage := by
  have hcommitted : after.committed = ledger.committed := by rw [committed, committed, hanswers]
  cases stage with
  | entered =>
    obtain ⟨hcount, hbytes⟩ := h
    exact ⟨by omega, by omega⟩
  | counted count =>
    obtain ⟨hcount, hbytes⟩ := h
    exact ⟨by omega, by omega⟩
  | charged total =>
    obtain ⟨hcount, hbytes⟩ := h
    exact ⟨by rw [hlimits]; omega, by omega⟩
  | permitted ticket =>
    obtain ⟨hcount, hbytes, hticket, hnew⟩ := h
    exact ⟨by rw [hlimits]; omega, by rw [hlimits]; omega, by rw [hnext]; exact hticket,
      by rw [hcommitted]; exact hnew⟩
  | enqueued ticket =>
    obtain ⟨hticket, hnew⟩ := h
    exact ⟨by rw [hnext]; exact hticket, by rw [hcommitted]; exact hnew⟩
  | refunding error => trivial
  | uncounting error => trivial

/-- A step that only lets go of what is outstanding. -/
theorem Balanced.shrink (h : ledger.Balanced) (hgate : after.gate = ledger.gate)
    (hlimits : after.shared.limits = ledger.shared.limits)
    (hnext : after.shared.nextTicket = ledger.shared.nextTicket)
    (hanswers : after.answers = ledger.answers) (hwrapped : after.wrapped = ledger.wrapped)
    (hcounts : ∀ p c, after.shared.counts p c + ledger.held p c =
      ledger.shared.counts p c + after.held p c)
    (hbytes : ∀ p, after.shared.bytes p + ledger.loaded p =
      ledger.shared.bytes p + after.loaded p)
    (hheld : ∀ p c, after.held p c ≤ ledger.held p c)
    (hweight : ∀ p c, after.weight p c ≤ ledger.weight p c) : after.Balanced := by
  have hloaded : ∀ p, after.loaded p ≤ ledger.loaded p := by
    intro p
    have hcontrol := hweight p .control
    have haction := hweight p .action
    have hbulk := hweight p .bulk
    unfold Ledger.loaded
    omega
  have hcommitted : after.committed = ledger.committed := by rw [committed, committed, hanswers]
  constructor
  · intro p c
    have hold := h.counts p c
    have hnew := hcounts p c
    have hpending : after.pendingCount p c = ledger.pendingCount p c := by
      rw [pendingCount, pendingCount, hgate]
    omega
  · intro p
    have hold := h.bytes p
    have hnew := hbytes p
    have hpending : after.pendingBytes p = ledger.pendingBytes p := by
      rw [pendingBytes, pendingBytes, hgate]
    omega
  · intro p c
    rw [hlimits]
    exact (hheld p c).trans (h.held p c)
  · intro p
    rw [hlimits]
    exact (hloaded p).trans (h.loaded p)
  · intro p
    have hold := h.data p
    have haction := hweight p .action
    have hbulk := hweight p .bulk
    rw [hlimits]
    omega
  · intro request stage hsome
    rw [hgate] at hsome
    exact (h.stage request stage hsome).mono (hheld _ _) (hloaded _) hlimits hnext hanswers
  · intro ticket hticket
    rw [hcommitted] at hticket
    rw [hnext]
    exact h.fresh ticket hticket
  · rw [hcommitted]
    exact h.nodup
  · rw [hwrapped]
    exact h.wrapped

theorem Balanced.take (h : ledger.Balanced) (hstep : ledger.take peer channel = some after) :
    after.Balanced := by
  unfold Ledger.take at hstep
  split at hstep
  · cases hstep
  rename_i submission rest hqueue
  cases hstep
  have hsame : ∀ p c,
      ((ledger.receivers.set peer channel rest) p c).length +
          ((ledger.taken.set peer channel (ledger.taken peer channel ++ [submission])) p c).length =
        (ledger.receivers p c).length + (ledger.taken p c).length ∧
      load ((ledger.receivers.set peer channel rest) p c) +
          load ((ledger.taken.set peer channel (ledger.taken peer channel ++ [submission])) p c) =
        load (ledger.receivers p c) + load (ledger.taken p c) := by
    intro p c
    by_cases hat : p = peer ∧ c = channel
    · obtain ⟨rfl, rfl⟩ := hat
      simp only [PerChannel.set_same, hqueue, List.length_append, List.length_cons, load_append,
        load_cons, load_nil, List.length_nil]
      omega
    · rw [PerChannel.set_of_ne hat, PerChannel.set_of_ne hat]
      exact ⟨rfl, rfl⟩
  have hheld : ∀ p c, Ledger.held { ledger with
      receivers := ledger.receivers.set peer channel rest
      taken := ledger.taken.set peer channel (ledger.taken peer channel ++ [submission]) } p c =
        ledger.held p c := fun p c => congrArg (· + ledger.releasing p c) (hsame p c).1
  have hweight : ∀ p c, Ledger.weight { ledger with
      receivers := ledger.receivers.set peer channel rest
      taken := ledger.taken.set peer channel (ledger.taken peer channel ++ [submission]) } p c =
        ledger.weight p c := fun p c => (hsame p c).2
  refine h.shrink rfl rfl rfl rfl rfl ?_ ?_ (fun p c => (hheld p c).le) (fun p c => (hweight p c).le)
  · intro p c
    rw [hheld]
  · intro p
    rw [Ledger.loaded, Ledger.loaded, hweight, hweight, hweight]

theorem Balanced.release (h : ledger.Balanced) {submission : Submission}
    (hstep : ledger.release peer channel submission = some after) : after.Balanced := by
  unfold Ledger.release at hstep
  split at hstep
  · rename_i hmem
    have hperm := List.perm_cons_erase hmem
    have hload : load (ledger.taken peer channel) =
        submission.reservedBytes + load ((ledger.taken peer channel).erase submission) := by
      rw [load_perm hperm, load_cons]
    have hlength : (ledger.taken peer channel).length =
        ((ledger.taken peer channel).erase submission).length + 1 := by
      rw [hperm.length_eq, List.length_cons]
    have hbytes := h.bytes peer
    have hweight : ledger.weight peer channel ≤ ledger.loaded peer := by
      unfold Ledger.loaded
      cases channel <;> omega
    have hcovered : submission.reservedBytes ≤ ledger.shared.bytes peer := by
      unfold Ledger.weight at hweight
      omega
    rw [subBytes_eq hcovered] at hstep
    cases hstep
    have hothers : ∀ p c, ¬(p = peer ∧ c = channel) → Ledger.weight { ledger with
        taken := ledger.taken.set peer channel ((ledger.taken peer channel).erase submission) } p c =
          ledger.weight p c := by
      intro p c hat
      unfold Ledger.weight
      dsimp only
      rw [PerChannel.set_of_ne hat]
    have hmine : Ledger.weight { ledger with
        taken := ledger.taken.set peer channel ((ledger.taken peer channel).erase submission) }
          peer channel + submission.reservedBytes = ledger.weight peer channel := by
      unfold Ledger.weight
      dsimp only
      rw [PerChannel.set_same]
      omega
    refine h.shrink rfl rfl rfl rfl rfl ?_ ?_ ?_ ?_
    · intro p c
      by_cases hat : p = peer ∧ c = channel
      · obtain ⟨rfl, rfl⟩ := hat
        simp only [Ledger.held, PerChannel.set_same]
        omega
      · simp only [Ledger.held, PerChannel.set_of_ne hat]
    · intro p
      obtain ⟨hat, hne⟩ := loaded_of hothers p
      by_cases hp : p = peer
      · subst hp
        have hsum := hat rfl
        dsimp only
        rw [Function.update_self]
        change _ + ledger.loaded p = _ + Ledger.loaded { ledger with taken := _ } p
        omega
      · dsimp only
        rw [Function.update_of_ne hp]
        exact congrArg (ledger.shared.bytes p + ·) (hne hp).symm
    · intro p c
      by_cases hat : p = peer ∧ c = channel
      · obtain ⟨rfl, rfl⟩ := hat
        simp only [Ledger.held, PerChannel.set_same]
        omega
      · simp only [Ledger.held, PerChannel.set_of_ne hat, Nat.le_refl]
    · intro p c
      by_cases hat : p = peer ∧ c = channel
      · obtain ⟨rfl, rfl⟩ := hat
        exact Nat.le_of_add_right_le hmine.le
      · exact (hothers p c hat).le
  · cases hstep

theorem Balanced.uncount (h : ledger.Balanced)
    (hstep : ledger.uncount peer channel = some after) : after.Balanced := by
  unfold Ledger.uncount at hstep
  split at hstep
  · cases hstep
  rename_i hpositive
  have hcount := h.counts peer channel
  have hcovered : 1 ≤ ledger.shared.counts peer channel := by
    unfold Ledger.held at hcount
    omega
  rw [subCount_eq hcovered] at hstep
  cases hstep
  refine h.shrink rfl rfl rfl rfl rfl ?_ (fun _ => rfl) ?_ (fun _ _ => Nat.le_refl _)
  · intro p c
    by_cases hat : p = peer ∧ c = channel
    · obtain ⟨rfl, rfl⟩ := hat
      simp only [Ledger.held, PerChannel.set_same]
      omega
    · simp only [Ledger.held, PerChannel.set_of_ne hat]
  · intro p c
    by_cases hat : p = peer ∧ c = channel
    · obtain ⟨rfl, rfl⟩ := hat
      simp only [Ledger.held, PerChannel.set_same]
      omega
    · simp only [Ledger.held, PerChannel.set_of_ne hat, Nat.le_refl]

/-- A channel has room for the submission of a call that holds a permit: the permit is counted,
    and the count of what the channel holds is below it. -/
theorem Balanced.room (h : ledger.Balanced) {ticket : SendTicket}
    (hgate : ledger.gate = some (request, .permitted ticket)) :
    (ledger.receivers request.peer request.channel).length <
      ledger.shared.limits.maxQueuedParcelsPerPeer := by
  have hcount := (h.stage request _ hgate).1
  unfold Ledger.held at hcount
  omega

theorem Balanced.enqueue (h : ledger.Balanced) (hstep : ledger.enqueue = some after) :
    after.Balanced := by
  unfold Ledger.enqueue at hstep
  split at hstep
  · rename_i request ticket hgate
    have hroom := h.room hgate
    obtain ⟨hcount, hbytes, hticket⟩ := h.stage request _ hgate
    dsimp only at hstep
    rw [if_neg (by omega)] at hstep
    have hafter := Option.some.inj hstep
    have hshared : after.shared = ledger.shared := by rw [← hafter]
    have hlimits : after.shared.limits = ledger.shared.limits := by rw [hshared]
    have hcommitted : after.committed = ledger.committed := by rw [← hafter]; rfl
    have hnext : after.gate = some (request, .enqueued ticket) := by rw [← hafter]
    -- the permit becomes a submission of its channel
    have hmine : after.held request.peer request.channel =
          ledger.held request.peer request.channel + 1 ∧
        after.weight request.peer request.channel =
          ledger.weight request.peer request.channel + request.bytes := by
      rw [← hafter]
      simp only [Ledger.held, Ledger.weight, PerChannel.set_same, List.length_append,
        List.length_singleton, load_append, load_cons, load_nil]
      omega
    have hothers : ∀ p c, ¬(p = request.peer ∧ c = request.channel) →
        after.held p c = ledger.held p c ∧ after.weight p c = ledger.weight p c := by
      intro p c hat
      rw [← hafter]
      simp only [Ledger.held, Ledger.weight, PerChannel.set_of_ne hat, and_self]
    have hload := loaded_of (fun p c hat => (hothers p c hat).2)
    have htotal := (hload request.peer).1 rfl
    have hlimit := byteLimit_le ledger.shared.limits request.channel
    constructor
    · intro p c
      have hold := h.counts p c
      rw [pendingCount_gate hgate] at hold
      rw [hshared, pendingCount_gate hnext]
      by_cases hat : p = request.peer ∧ c = request.channel
      · obtain ⟨rfl, rfl⟩ := hat
        simp only [and_self, if_true, Reserving.counts] at hold ⊢
        omega
      · rw [if_neg hat] at hold ⊢
        rw [hold, (hothers p c hat).1]
    · intro p
      have hold := h.bytes p
      rw [pendingBytes_gate hgate] at hold
      rw [hshared, pendingBytes_gate hnext]
      by_cases hat : p = request.peer
      · subst hat
        simp only [if_true, Reserving.charges] at hold ⊢
        omega
      · rw [if_neg hat] at hold ⊢
        rw [hold, (hload p).2 hat]
    · intro p c
      rw [hlimits]
      by_cases hat : p = request.peer ∧ c = request.channel
      · obtain ⟨rfl, rfl⟩ := hat
        omega
      · rw [(hothers p c hat).1]
        exact h.held p c
    · intro p
      rw [hlimits]
      by_cases hat : p = request.peer
      · subst hat
        omega
      · rw [(hload p).2 hat]
        exact h.loaded p
    · intro p
      have hdata := h.data p
      rw [hlimits]
      by_cases hat : p = request.peer
      · subst hat
        -- data submissions were charged against what the reserve leaves
        unfold Ledger.loaded at htotal
        cases hchannel : request.channel with
        | control =>
          rw [hchannel] at hothers
          rw [(hothers _ .action (by simp)).2, (hothers _ .bulk (by simp)).2]
          exact hdata
        | action =>
          rw [hchannel] at hbytes htotal hmine
          unfold Ledger.loaded at hbytes
          omega
        | bulk =>
          rw [hchannel] at hbytes htotal hmine
          unfold Ledger.loaded at hbytes
          change _ ≤ SubmissionState.byteLimit ledger.shared.limits .bulk
          omega
      · rw [(hothers p .action (fun hc => hat hc.1)).2, (hothers p .bulk (fun hc => hat hc.1)).2]
        exact hdata
    · intro other stage hother
      rw [hnext] at hother
      cases hother
      change ticket.get < after.shared.nextTicket ∧ ticket ∉ after.committed
      rw [hshared, hcommitted]
      exact hticket
    · rw [hshared, hcommitted]
      exact h.fresh
    · rw [hcommitted]
      exact h.nodup
    · rw [← hafter]
      exact h.wrapped
  · cases hstep

theorem Balanced.step (h : ledger.Balanced) {act : Act} (hstep : ledger.step act = some after) :
    after.Balanced := by
  cases act with
  | lock request => exact h.lock hstep
  | advance => exact h.advance hstep
  | enqueue => exact h.enqueue hstep
  | drop error => exact h.drop hstep
  | close => exact h.close hstep
  | take peer channel => exact h.take hstep
  | release peer channel submission => exact h.release hstep
  | uncount peer channel => exact h.uncount hstep

theorem Balanced.run (h : ledger.Balanced) {acts : List Act}
    (hrun : exec Ledger.step ledger acts = some after) : after.Balanced :=
  exec_invariant_all Balanced (fun _ _ _ hinv hstep => hinv.step hstep) h hrun

/-! ## The atomic reservation -/

theorem PerChannel.set_set {α : Type} (table : PerChannel α) (peer : Nat) (channel : Channel)
    (first second : α) :
    (table.set peer channel first).set peer channel second = table.set peer channel second := by
  funext p c
  by_cases hat : p = peer ∧ c = channel
  · obtain ⟨rfl, rfl⟩ := hat
    rw [PerChannel.set_same, PerChannel.set_same]
  · rw [PerChannel.set_of_ne hat, PerChannel.set_of_ne hat, PerChannel.set_of_ne hat]

theorem PerChannel.set_eq {α : Type} (table : PerChannel α) (peer : Nat) (channel : Channel) :
    table.set peer channel (table peer channel) = table := by
  funext p c
  by_cases hat : p = peer ∧ c = channel
  · obtain ⟨rfl, rfl⟩ := hat
    rw [PerChannel.set_same]
  · rw [PerChannel.set_of_ne hat]

/-- The ledger while the call with the gate stands here. -/
def atStage (ledger : Ledger) (request : Request) (stage : Reserving) : Ledger :=
  { ledger with gate := some (request, stage) }

variable {request : Request} {count total : Nat} {error : TransportError}

theorem subCount_addCount {peer : Nat} {channel : Channel}
    (hfits : ledger.shared.counts peer channel + 1 < u64Bound) :
    (ledger.addCount peer channel).subCount peer channel = ledger := by
  have hwrapped := decide_eq_false (not_le.mpr hfits)
  obtain ⟨⟨limits, nextTicket, closed, counts, bytes⟩, gate, receivers, taken, releasing, answers,
    wrapped⟩ := ledger
  dsimp only at hfits hwrapped
  simp only [addCount, subCount, atomicAdd, if_pos hfits, hwrapped, PerChannel.set_same, atomicSub,
    Nat.le_add_left, if_true, Nat.add_sub_cancel, PerChannel.set_set, PerChannel.set_eq,
    Bool.or_false, not_lt.mpr (Nat.le_add_left _ _), decide_false]

theorem subBytes_addBytes {peer bytes : Nat} (hfits : ledger.shared.bytes peer + bytes < u64Bound) :
    (ledger.addBytes peer bytes).subBytes peer bytes = ledger := by
  have hwrapped := decide_eq_false (not_le.mpr hfits)
  obtain ⟨⟨limits, nextTicket, closed, counts, charged⟩, gate, receivers, taken, releasing, answers,
    wrapped⟩ := ledger
  dsimp only at hfits hwrapped
  simp only [addBytes, subBytes, atomicAdd, if_pos hfits, hwrapped, Function.update_self, atomicSub,
    Nat.le_add_left, if_true, Nat.add_sub_cancel, Function.update_idem, Function.update_eq_self,
    Bool.or_false, not_lt.mpr (Nat.le_add_left _ _), decide_false]

/-- A call that gives back its count leaves the ledger as it was before. -/
theorem exec_uncounting
    (hcounts : ledger.shared.counts request.peer request.channel + 1 < u64Bound) :
    exec step ((ledger.addCount request.peer request.channel).atStage request (.uncounting error))
      [.advance] = some (ledger.answer (.error error)) := by
  refine exec_cons_some.mpr ⟨_, rfl, ?_⟩
  change some (((ledger.addCount request.peer request.channel).subCount request.peer
    request.channel).answer (.error error)) = _
  rw [subCount_addCount hcounts]

/-- So does one that gives back its bytes too. -/
theorem exec_refunding
    (hcounts : ledger.shared.counts request.peer request.channel + 1 < u64Bound)
    (hbytes : ledger.shared.bytes request.peer + request.bytes < u64Bound) :
    exec step (((ledger.addCount request.peer request.channel).addBytes request.peer
      request.bytes).atStage request (.refunding error)) [.advance, .advance] =
      some (ledger.answer (.error error)) := by
  refine exec_cons_some.mpr ⟨_, rfl, ?_⟩
  change exec step ((((ledger.addCount request.peer request.channel).addBytes request.peer
    request.bytes).subBytes request.peer request.bytes).atStage request (.uncounting error))
    [.advance] = _
  rw [@subBytes_addBytes (ledger.addCount request.peer request.channel) _ _ hbytes]
  exact exec_uncounting hcounts

/-- The steps of a call that nothing interrupts are the atomic `reserve`: a refused reservation
    leaves the counters as they were, and a granted one leaves its permit at the gate. -/
theorem reserve_alone (ledger : Ledger) (request : Request) (hgate : ledger.gate = none)
    (hbytes : ledger.shared.bytes request.peer + request.bytes < u64Bound)
    (hcounts : ledger.shared.counts request.peer request.channel + 1 < u64Bound) :
    ∃ n, exec Ledger.step ledger (.lock request :: List.replicate n .advance) =
      match ledger.shared.reserve request.peer request.channel request.bytes with
      | .error error => some (ledger.answer (.error error))
      | .ok (ticket, after) =>
        some { ledger with shared := after, gate := some (request, .permitted ticket) } := by
  have hmemory : ¬(u64Bound ≤ ledger.shared.bytes request.peer + request.bytes ∨
      u64Bound ≤ ledger.shared.counts request.peer request.channel + 1) := by omega
  have hlock : ledger.step (.lock request) = if ledger.shared.closed then
      some (ledger.answer (.error .shutdown)) else some (ledger.atStage request .entered) := by
    rw [step, lock, hgate]
    exact if_neg hmemory
  unfold SubmissionState.reserve
  by_cases hclosed : ledger.shared.closed = true
  · rw [if_pos hclosed] at hlock ⊢
    exact ⟨0, exec_cons_some.mpr ⟨_, hlock, rfl⟩⟩
  rw [if_neg hclosed] at hlock ⊢
  by_cases hqueued : ledger.shared.limits.maxQueuedParcelsPerPeer <
      ledger.shared.counts request.peer request.channel + 1
  · rw [if_pos hqueued]
    refine ⟨3, exec_cons_some.mpr ⟨_, hlock, exec_cons_some.mpr ⟨_, rfl, ?_⟩⟩⟩
    exact exec_cons_some.mpr ⟨_, if_pos hqueued, exec_uncounting hcounts⟩
  rw [if_neg hqueued]
  by_cases hlimit : SubmissionState.byteLimit ledger.shared.limits request.channel <
      ledger.shared.bytes request.peer + request.bytes
  · rw [if_pos hlimit]
    refine ⟨5, exec_cons_some.mpr ⟨_, hlock, exec_cons_some.mpr ⟨_, rfl, ?_⟩⟩⟩
    refine exec_cons_some.mpr ⟨_, if_neg hqueued, exec_cons_some.mpr ⟨_, if_pos hlimit, ?_⟩⟩
    exact exec_refunding hcounts hbytes
  rw [if_neg hlimit]
  by_cases hticket : ledger.shared.nextTicket = 0 ∨ ledger.shared.nextTicket = u64Bound - 1
  · rw [if_pos hticket]
    refine ⟨5, exec_cons_some.mpr ⟨_, hlock, exec_cons_some.mpr ⟨_, rfl, ?_⟩⟩⟩
    refine exec_cons_some.mpr ⟨_, if_neg hqueued, exec_cons_some.mpr
      ⟨_, (if_neg hlimit).trans (if_pos hticket), ?_⟩⟩
    exact exec_refunding hcounts hbytes
  · rw [if_neg hticket]
    refine ⟨3, exec_cons_some.mpr ⟨_, hlock, exec_cons_some.mpr ⟨_, rfl, ?_⟩⟩⟩
    refine exec_cons_some.mpr ⟨_, if_neg hqueued, exec_cons_some.mpr
      ⟨_, (if_neg hlimit).trans (if_neg hticket), ?_⟩⟩
    have hcountsFit := not_le.mpr hcounts
    have hbytesFit := not_le.mpr hbytes
    simp only [exec, List.replicate, addCount, addBytes, atStage, atomicAdd, hcounts, hbytes,
      if_true, hcountsFit, hbytesFit, decide_false, Bool.or_false]

/-! ## Whole runs -/

theorem step_limits {act : Act} (hstep : ledger.step act = some after) :
    after.shared.limits = ledger.shared.limits := by
  cases act <;>
    simp only [step, lock, advance, enqueue, drop, close, take, release, uncount] at hstep <;>
    (repeat' split at hstep) <;>
    first
    | cases hstep; rfl
    | cases hstep

theorem exec_limits {acts : List Act} (hrun : exec step ledger acts = some after) :
    after.shared.limits = ledger.shared.limits :=
  exec_invariant_all (fun found => found.shared.limits = ledger.shared.limits)
    (fun _ _ _ hinv hstep => (step_limits hstep).trans hinv) rfl hrun

/-- No call is between the two halves of raising a counter or of giving it back. -/
def Settled (ledger : Ledger) : Prop :=
  ledger.gate = none ∨ ∃ request ticket, ledger.gate = some (request, .permitted ticket) ∨
    ledger.gate = some (request, .enqueued ticket)

/-- Outside of these moments the counters themselves are within the limits. -/
theorem Balanced.settled (h : ledger.Balanced) (hsettled : ledger.Settled) (peer : Nat)
    (channel : Channel) :
    ledger.shared.counts peer channel ≤ ledger.shared.limits.maxQueuedParcelsPerPeer ∧
      ledger.shared.bytes peer ≤ ledger.shared.limits.maxInflightBytesPerPeer := by
  have hcount := h.counts peer channel
  have hbytes := h.bytes peer
  have hheld := h.held peer channel
  have hloaded := h.loaded peer
  rcases hsettled with hgate | ⟨request, ticket, hgate | hgate⟩
  · rw [pendingCount_free hgate] at hcount
    rw [pendingBytes_free hgate] at hbytes
    omega
  · obtain ⟨hroom, hlimit, -⟩ := h.stage request _ hgate
    have hmost := byteLimit_le ledger.shared.limits request.channel
    rw [pendingCount_gate hgate] at hcount
    rw [pendingBytes_gate hgate] at hbytes
    simp only [Reserving.counts, Reserving.charges, Nat.one_mul] at hcount hbytes
    constructor
    · split at hcount
      · rename_i hat
        obtain ⟨rfl, rfl⟩ := hat
        omega
      · omega
    · split at hbytes
      · rename_i hat
        subst hat
        omega
      · omega
  · rw [pendingCount_gate hgate] at hcount
    rw [pendingBytes_gate hgate] at hbytes
    simp only [Reserving.counts, Reserving.charges, Nat.zero_mul, ite_self] at hcount hbytes
    omega

/-- What the call with the gate does alone, but for a submission it puts into a channel. -/
def Act.isRetreat : Act → Bool
  | .advance => true
  | .drop _ => true
  | _ => false

theorem retreat_frame {act : Act} (hact : act.isRetreat = true)
    (hstep : ledger.step act = some after) :
    after.receivers = ledger.receivers ∧ after.taken = ledger.taken ∧
      after.releasing = ledger.releasing := by
  cases act with
  | advance =>
    simp only [step, advance] at hstep
    repeat' split at hstep
    all_goals
      cases hstep
    all_goals
      exact ⟨rfl, rfl, rfl⟩
  | drop error =>
    simp only [step, drop] at hstep
    split at hstep
    · cases hstep
      exact ⟨rfl, rfl, rfl⟩
    · cases hstep
  | _ => cases hact

/-- A call that was refused, or that dropped its permit, leaves the counters as they were. -/
theorem Balanced.restored (h : ledger.Balanced) (hgate : ledger.gate = none) {acts : List Act}
    (hacts : ∀ act ∈ acts, act.isRetreat = true)
    (hrun : exec Ledger.step ledger (.lock request :: acts) = some after) (hafter : after.gate = none) :
    after.shared.counts = ledger.shared.counts ∧ after.shared.bytes = ledger.shared.bytes := by
  obtain ⟨locked, hlock, hrest⟩ := exec_cons_some.mp hrun
  have hlocked : locked.receivers = ledger.receivers ∧ locked.taken = ledger.taken ∧
      locked.releasing = ledger.releasing := by
    simp only [Ledger.step, Ledger.lock, hgate] at hlock
    repeat' split at hlock
    all_goals
      cases hlock
    all_goals
      exact ⟨rfl, rfl, rfl⟩
  have hsame : after.receivers = ledger.receivers ∧ after.taken = ledger.taken ∧
      after.releasing = ledger.releasing := by
    clear hrun hlock
    induction acts generalizing locked with
    | nil =>
      cases hrest
      exact hlocked
    | cons act rest ih =>
      obtain ⟨next, hstep, hmore⟩ := exec_cons_some.mp hrest
      obtain ⟨hreceivers, htaken, hreleasing⟩ := retreat_frame (hacts act (.head _)) hstep
      refine ih (fun later hlater => hacts later (.tail _ hlater)) next hmore ⟨?_, ?_, ?_⟩
      · rw [hreceivers, hlocked.1]
      · rw [htaken, hlocked.2.1]
      · rw [hreleasing, hlocked.2.2]
  obtain ⟨hreceivers, htaken, hreleasing⟩ := hsame
  have hend := h.run hrun
  have hweight : ∀ p c, after.weight p c = ledger.weight p c := by
    intro p c
    rw [weight, weight, hreceivers, htaken]
  constructor
  · funext p c
    rw [hend.counts, h.counts, pendingCount_free hafter, pendingCount_free hgate, Ledger.held,
      Ledger.held, hreceivers, htaken, hreleasing]
  · funext p
    rw [hend.bytes, h.bytes, pendingBytes_free hafter, pendingBytes_free hgate, Ledger.loaded,
      Ledger.loaded, hweight, hweight, hweight]

/-- Submission accounting. In every state any interleaving of the calls and the driver leads
    to, the counters are what is outstanding and what the call with the gate has put on top of
    it, both within the limits, and no atomic operation has left its range. The tickets of
    committed permits are distinct, a channel has room for whoever holds a permit, and a call
    that is refused or drops its permit restores the counters. -/
theorem reservations_accounted (limits : ProtocolLimits) (hlimits : limits.validate = .ok limits)
    (acts : List Act) (ledger : Ledger) (hrun : exec step (.new limits) acts = some ledger) :
    (∀ peer channel, ledger.shared.counts peer channel =
        ledger.held peer channel + ledger.pendingCount peer channel ∧
      ledger.held peer channel ≤ limits.maxQueuedParcelsPerPeer) ∧
    (∀ peer, ledger.shared.bytes peer = ledger.loaded peer + ledger.pendingBytes peer ∧
      ledger.loaded peer ≤ limits.maxInflightBytesPerPeer) ∧
    (ledger.Settled → ∀ peer channel,
      ledger.shared.counts peer channel ≤ limits.maxQueuedParcelsPerPeer ∧
      ledger.shared.bytes peer ≤ limits.maxInflightBytesPerPeer) ∧
    ledger.wrapped = false ∧
    limits.controlReservedBytesPerPeer ≤ limits.maxInflightBytesPerPeer ∧
    ledger.committed.Nodup ∧
    (∀ request ticket, ledger.gate = some (request, .permitted ticket) →
      (ledger.receivers request.peer request.channel).length < limits.maxQueuedParcelsPerPeer) ∧
    (∀ request rest after, ledger.gate = none → (∀ act ∈ rest, act.isRetreat = true) →
      exec step ledger (.lock request :: rest) = some after → after.gate = none →
      after.shared.counts = ledger.shared.counts ∧ after.shared.bytes = ledger.shared.bytes) := by
  have h : ledger.Balanced := (Balanced.new limits).run hrun
  have hsame : ledger.shared.limits = limits := exec_limits hrun
  have hvalid : limits.controlReservedBytesPerPeer ≤ limits.maxInflightBytesPerPeer := by
    unfold ProtocolLimits.validate at hlimits
    split at hlimits
    · cases hlimits
    · omega
  refine ⟨?_, ?_, ?_, h.wrapped, hvalid, h.nodup, ?_, ?_⟩
  · intro peer channel
    exact ⟨h.counts peer channel, by rw [← hsame]; exact h.held peer channel⟩
  · intro peer
    exact ⟨h.bytes peer, by rw [← hsame]; exact h.loaded peer⟩
  · intro hsettled peer channel
    rw [← hsame]
    exact h.settled hsettled peer channel
  · intro request ticket hgate
    rw [← hsame]
    exact h.room hgate
  · intro request rest after hgate hrest hmore hafter
    exact h.restored hgate hrest hmore hafter

/-- One parcel may be outstanding for each channel of a peer. -/
def sampleLimits : ProtocolLimits := ⟨200, 8, 4, 1, 400, 100⟩

/-- A submission of a parcel with one byte. -/
def sampleRequest : Request where
  peer := 0
  parcel :=
    { runId := ⟨1, u128_one⟩
      messageId := ⟨1, u128_one⟩
      channel := .action
      kind := .data
      source := ⟨1⟩
      destination := ⟨0⟩
      traceId := none
      segments := [[5]] }
  bytes := 104

/-- The call holds its permit, and its channel has room. -/
theorem reservations_accounted_permit : ∃ ledger : Ledger,
    exec step (.new sampleLimits) [.lock sampleRequest, .advance, .advance, .advance] = some ledger ∧
      (ledger.receivers sampleRequest.peer sampleRequest.channel).length < 1 :=
  ⟨_, rfl, (reservations_accounted sampleLimits rfl
    [.lock sampleRequest, .advance, .advance, .advance] _ rfl).2.2.2.2.2.2.1 sampleRequest ⟨1⟩ rfl⟩

end Ledger

end Hataori.Transport
