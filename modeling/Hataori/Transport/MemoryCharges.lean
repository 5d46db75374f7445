import Hataori.Transport.MemoryEvents
import Hataori.Transport.Negotiation

/-!
# What the in-memory transport charges

The bytes of a parcel are charged to its destination when it is sent. They move with it from
the delayed parcels to an incoming queue, by the clock of any node, and are given back when
the parcel is handed out, cancelled or cleared. A node is charged for exactly what waits for it.
-/

namespace Hataori.Transport

open Hataori.Runtime

/-- The delayed parcels addressed to a node on a channel. -/
def delayedTo (delayed : List Delayed) (node : Nat) (channel : Channel) : List Delayed :=
  delayed.filter fun item => item.destination.get.toNat = node ∧ item.parcel.channel = channel

@[simp] theorem delayedTo_nil (node : Nat) (channel : Channel) : delayedTo [] node channel = [] :=
  rfl

@[simp] theorem delayedTo_append (first second : List Delayed) (node : Nat) (channel : Channel) :
    delayedTo (first ++ second) node channel =
      delayedTo first node channel ++ delayedTo second node channel := by
  simp [delayedTo]

theorem delayedTo_cons (item : Delayed) (rest : List Delayed) (node : Nat) (channel : Channel) :
    delayedTo (item :: rest) node channel =
      if item.destination.get.toNat = node ∧ item.parcel.channel = channel then
        item :: delayedTo rest node channel
      else delayedTo rest node channel := by
  simp only [delayedTo, List.filter_cons, decide_eq_true_eq]

/-- The payload bytes of some parcels. -/
def payloads (parcels : List Parcel) : Nat := (parcels.map Parcel.payload).sum

/-- The bytes of some delayed parcels. -/
def delayedBytes (delayed : List Delayed) : Nat := (delayed.map Delayed.bytes).sum

@[simp] theorem payloads_nil : payloads [] = 0 := rfl

@[simp] theorem payloads_cons (parcel : Parcel) (rest : List Parcel) :
    payloads (parcel :: rest) = parcel.payload + payloads rest := rfl

@[simp] theorem payloads_append (first second : List Parcel) :
    payloads (first ++ second) = payloads first + payloads second := by
  simp [payloads]

@[simp] theorem delayedBytes_nil : delayedBytes [] = 0 := rfl

@[simp] theorem delayedBytes_cons (item : Delayed) (rest : List Delayed) :
    delayedBytes (item :: rest) = item.bytes + delayedBytes rest := rfl

@[simp] theorem delayedBytes_append (first second : List Delayed) :
    delayedBytes (first ++ second) = delayedBytes first + delayedBytes second := by
  simp [delayedBytes]

namespace Node

/-- The bytes that wait for a node on a channel. -/
def weight (node : Node) (delayed : List Delayed) (index : Nat) (channel : Channel) : Nat :=
  payloads (node.incoming channel) + delayedBytes (delayedTo delayed index channel)

/-- A node is charged for what waits for it, which is within the limits. Data parcels leave
    the control reserve alone. -/
structure Charged (limits : ProtocolLimits) (delayed : List Delayed) (index : Nat) (node : Node) :
    Prop where
  counts : ∀ channel, node.delayedCounts channel = (delayedTo delayed index channel).length
  bytes : node.queuedBytes = node.weight delayed index .control +
    node.weight delayed index .action + node.weight delayed index .bulk
  room : ∀ channel, (node.incoming channel).length + node.delayedCounts channel ≤
    limits.maxQueuedParcelsPerPeer
  budget : node.queuedBytes ≤ limits.maxInflightBytesPerPeer
  data : node.weight delayed index .action + node.weight delayed index .bulk ≤
    SubmissionState.byteLimit limits .action
  parcels : ∀ channel, ∀ parcel ∈ node.incoming channel,
    parcel.channel = channel ∧ parcel.payload < u64Bound

variable {limits : ProtocolLimits} {delayed now : List Delayed} {index : Nat} {node after : Node}

theorem charged_default (limits : ProtocolLimits) (index : Nat) :
    Charged limits [] index .default where
  counts _ := rfl
  bytes := rfl
  room _ := Nat.zero_le _
  budget := Nat.zero_le _
  data := Nat.zero_le _
  parcels := by
    intro channel parcel hmem
    cases hmem

/-- Nothing about this node changed. -/
theorem Charged.congr (h : Charged limits delayed index node)
    (hdelayed : ∀ channel, delayedTo now index channel = delayedTo delayed index channel)
    (hincoming : after.incoming = node.incoming) (hcounts : after.delayedCounts = node.delayedCounts)
    (hbytes : after.queuedBytes = node.queuedBytes) : Charged limits now index after := by
  have hweight : ∀ channel, after.weight now index channel = node.weight delayed index channel := by
    intro channel
    rw [weight, weight, hincoming, hdelayed]
  refine ⟨?_, ?_, ?_, ?_, ?_, ?_⟩
  · intro channel
    rw [hcounts, hdelayed, h.counts]
  · rw [hbytes, hweight, hweight, hweight, h.bytes]
  · rw [hincoming, hcounts]
    exact h.room
  · rw [hbytes]
    exact h.budget
  · rw [hweight, hweight]
    exact h.data
  · rw [hincoming]
    exact h.parcels

/-- What waits on one channel changed, and the charge with it. -/
theorem Charged.change (h : Charged limits delayed index node) (channel : Channel)
    (hdelayed : ∀ other, other ≠ channel →
      delayedTo now index other = delayedTo delayed index other)
    (hincoming : ∀ other, other ≠ channel → after.incoming other = node.incoming other)
    (hothers : ∀ other, other ≠ channel → after.delayedCounts other = node.delayedCounts other)
    (hcounts : after.delayedCounts channel = (delayedTo now index channel).length)
    (hbytes : after.queuedBytes + node.weight delayed index channel =
      node.queuedBytes + after.weight now index channel)
    (hroom : (after.incoming channel).length + after.delayedCounts channel ≤
      limits.maxQueuedParcelsPerPeer)
    (hbudget : after.queuedBytes ≤ node.queuedBytes ∨
      after.queuedBytes ≤ SubmissionState.byteLimit limits channel)
    (hparcels : ∀ parcel ∈ after.incoming channel,
      parcel.channel = channel ∧ parcel.payload < u64Bound) :
    Charged limits now index after := by
  have hweight : ∀ other, other ≠ channel →
      after.weight now index other = node.weight delayed index other := by
    intro other hne
    rw [weight, weight, hincoming other hne, hdelayed other hne]
  have hold := h.bytes
  have hsum : after.queuedBytes = after.weight now index .control +
      after.weight now index .action + after.weight now index .bulk := by
    cases channel with
    | control =>
      have haction := hweight .action (by decide)
      have hbulk := hweight .bulk (by decide)
      omega
    | action =>
      have hcontrol := hweight .control (by decide)
      have hbulk := hweight .bulk (by decide)
      omega
    | bulk =>
      have hcontrol := hweight .control (by decide)
      have haction := hweight .action (by decide)
      omega
  refine ⟨?_, hsum, ?_, ?_, ?_, ?_⟩
  · intro other
    by_cases hsame : other = channel
    · rw [hsame, hcounts]
    · rw [hothers other hsame, hdelayed other hsame, h.counts]
  · intro other
    by_cases hsame : other = channel
    · rw [hsame]
      exact hroom
    · rw [hincoming other hsame, hothers other hsame]
      exact h.room other
  · have hmost : SubmissionState.byteLimit limits channel ≤ limits.maxInflightBytesPerPeer := by
      cases channel <;> simp [SubmissionState.byteLimit]
    have hbefore := h.budget
    omega
  · have hbefore := h.data
    cases channel with
    | control =>
      rw [hweight .action (by decide), hweight .bulk (by decide)]
      exact hbefore
    | action =>
      have hbulk := hweight .bulk (by decide)
      have hcontrol := hweight .control (by decide)
      rcases hbudget with hless | hfits <;> omega
    | bulk =>
      have haction := hweight .action (by decide)
      have hcontrol := hweight .control (by decide)
      change _ ≤ SubmissionState.byteLimit limits .bulk
      change _ ≤ SubmissionState.byteLimit limits .bulk at hbefore
      rcases hbudget with hless | hfits <;> omega
  · intro other
    by_cases hsame : other = channel
    · rw [hsame]
      exact hparcels
    · rw [hincoming other hsame]
      exact h.parcels other

/-- A parcel goes straight into an incoming queue. -/
theorem Charged.enqueue (h : Charged limits delayed index node) {parcel : Parcel}
    (hbound : parcel.payload < u64Bound)
    (hroom : (node.incoming parcel.channel).length + node.delayedCounts parcel.channel + 1 ≤
      limits.maxQueuedParcelsPerPeer)
    (hbudget : node.queuedBytes + parcel.payload ≤
      SubmissionState.byteLimit limits parcel.channel) (front : Bool) :
    Charged limits delayed index { node with
      queuedBytes := node.queuedBytes + parcel.payload
      incoming := Function.update node.incoming parcel.channel
        (if front then parcel :: node.incoming parcel.channel
          else node.incoming parcel.channel ++ [parcel]) } := by
  have hlength : (if front then parcel :: node.incoming parcel.channel
      else node.incoming parcel.channel ++ [parcel]).length =
        (node.incoming parcel.channel).length + 1 := by
    cases front <;> simp
  have hpayload : payloads (if front then parcel :: node.incoming parcel.channel
      else node.incoming parcel.channel ++ [parcel]) =
        payloads (node.incoming parcel.channel) + parcel.payload := by
    cases front
    · simp
    · simp [Nat.add_comm]
  refine h.change parcel.channel (fun _ _ => rfl) (fun _ hne => Function.update_of_ne hne _ _)
    (fun _ _ => rfl) (h.counts _) ?_ ?_ (.inr hbudget) ?_
  · simp only [weight, Function.update_self, hpayload]
    omega
  · simp only [Function.update_self, hlength]
    omega
  · intro other hmem
    simp only [Function.update_self] at hmem
    have hcases : other = parcel ∨ other ∈ node.incoming parcel.channel := by
      cases front
      · exact (List.mem_append.mp hmem).elim .inr fun hnew => .inl (List.mem_singleton.mp hnew)
      · exact List.mem_cons.mp hmem
    rcases hcases with rfl | hold
    · exact ⟨rfl, hbound⟩
    · exact h.parcels _ other hold

/-- A parcel is delayed on its way to this node. -/
theorem Charged.park (h : Charged limits delayed index node) {item : Delayed}
    (hhere : item.destination.get.toNat = index)
    (hroom : (node.incoming item.parcel.channel).length + node.delayedCounts item.parcel.channel + 1 ≤
      limits.maxQueuedParcelsPerPeer)
    (hbudget : node.queuedBytes + item.bytes ≤
      SubmissionState.byteLimit limits item.parcel.channel) :
    Charged limits (delayed ++ [item]) index { node with
      delayedCounts := Function.update node.delayedCounts item.parcel.channel
        (node.delayedCounts item.parcel.channel + 1)
      queuedBytes := node.queuedBytes + item.bytes } := by
  have hcount := h.counts item.parcel.channel
  refine h.change item.parcel.channel ?_ (fun _ _ => rfl)
    (fun _ hne => Function.update_of_ne hne _ _) ?_ ?_ ?_ (.inr hbudget) (h.parcels _)
  · intro other hne
    simp [delayedTo_cons, Ne.symm hne]
  · simp [delayedTo_cons, hhere, hcount]
  · simp [weight, delayedTo_cons, hhere]
    omega
  · simp only [Function.update_self]
    omega

/-- A parcel is delayed, or let go, on its way to another node. -/
theorem delayedTo_elsewhere {item : Delayed} (h : item.destination.get.toNat ≠ index)
    (kept rest : List Delayed) (channel : Channel) :
    delayedTo (kept ++ item :: rest) index channel = delayedTo (kept ++ rest) index channel := by
  simp [delayedTo_cons, h]

theorem delayedTo_here {item : Delayed} (h : item.destination.get.toNat = index)
    (kept rest : List Delayed) :
    (∀ channel, channel ≠ item.parcel.channel →
      delayedTo (kept ++ rest) index channel = delayedTo (kept ++ item :: rest) index channel) ∧
    (delayedTo (kept ++ item :: rest) index item.parcel.channel).length =
      (delayedTo (kept ++ rest) index item.parcel.channel).length + 1 ∧
    delayedBytes (delayedTo (kept ++ item :: rest) index item.parcel.channel) =
      delayedBytes (delayedTo (kept ++ rest) index item.parcel.channel) + item.bytes := by
  refine ⟨?_, ?_, ?_⟩
  · intro channel hne
    simp [delayedTo_cons, Ne.symm hne]
  · simp [delayedTo_cons, h]
    omega
  · simp [delayedTo_cons, h]
    omega

/-- A delayed parcel arrives: its bytes are charged already. -/
theorem Charged.arrive {kept rest : List Delayed} {item : Delayed}
    (h : Charged limits (kept ++ item :: rest) index node)
    (hhere : item.destination.get.toNat = index) (hbytes : item.bytes = item.parcel.payload)
    (hbound : item.parcel.payload < u64Bound) :
    1 ≤ node.delayedCounts item.parcel.channel ∧
      Charged limits (kept ++ rest) index { node with
        delayedCounts := Function.update node.delayedCounts item.parcel.channel
          (node.delayedCounts item.parcel.channel - 1)
        incoming := Function.update node.incoming item.parcel.channel
          (node.incoming item.parcel.channel ++ [item.parcel]) } := by
  obtain ⟨hothers, hlength, hsum⟩ := delayedTo_here hhere kept rest
  have hcount := h.counts item.parcel.channel
  have hroom := h.room item.parcel.channel
  refine ⟨by omega, ?_⟩
  refine h.change item.parcel.channel hothers (fun _ hne => Function.update_of_ne hne _ _)
    (fun _ hne => Function.update_of_ne hne _ _) ?_ ?_ ?_ (.inl (Nat.le_refl _)) ?_
  · simp only [Function.update_self]
    omega
  · simp only [weight, Function.update_self, payloads_append, payloads_cons, payloads_nil]
    omega
  · simp only [Function.update_self, List.length_append, List.length_singleton]
    omega
  · intro other hmem
    simp only [Function.update_self] at hmem
    rcases List.mem_append.mp hmem with hold | hnew
    · exact h.parcels _ other hold
    · rw [List.mem_singleton.mp hnew]
      exact ⟨rfl, hbound⟩

/-- A delayed parcel is cancelled. -/
theorem Charged.forget {kept rest : List Delayed} {item : Delayed}
    (h : Charged limits (kept ++ item :: rest) index node)
    (hhere : item.destination.get.toNat = index) :
    1 ≤ node.delayedCounts item.parcel.channel ∧ item.bytes ≤ node.queuedBytes ∧
      Charged limits (kept ++ rest) index { node with
        delayedCounts := Function.update node.delayedCounts item.parcel.channel
          (node.delayedCounts item.parcel.channel - 1)
        queuedBytes := node.queuedBytes - item.bytes } := by
  obtain ⟨hothers, hlength, hsum⟩ := delayedTo_here hhere kept rest
  have hcount := h.counts item.parcel.channel
  have hroom := h.room item.parcel.channel
  have hcovered : item.bytes ≤ node.queuedBytes := by
    have hbytes := h.bytes
    simp only [weight] at hbytes
    cases hchannel : item.parcel.channel <;> rw [hchannel] at hsum <;> omega
  refine ⟨by omega, hcovered, ?_⟩
  refine h.change item.parcel.channel hothers (fun _ _ => rfl)
    (fun _ hne => Function.update_of_ne hne _ _) ?_ ?_ ?_ (.inl (Nat.sub_le _ _)) (h.parcels _)
  · simp only [Function.update_self]
    omega
  · simp only [weight]
    omega
  · simp only [Function.update_self]
    omega

/-- The first parcel of an incoming queue is handed out. -/
theorem Charged.hand (h : Charged limits delayed index node) {channel : Channel} {parcel : Parcel}
    {rest : List Parcel} (hqueue : node.incoming channel = parcel :: rest) :
    parcel.payload ≤ node.queuedBytes ∧
      Charged limits delayed index (release
        { node with incoming := Function.update node.incoming channel rest } parcel.payload) := by
  have hcount := h.counts channel
  have hroom := h.room channel
  have hsum : payloads (node.incoming channel) = parcel.payload + payloads rest := by
    rw [hqueue, payloads_cons]
  have hlength : (node.incoming channel).length = rest.length + 1 := by
    rw [hqueue, List.length_cons]
  have hcovered : parcel.payload ≤ node.queuedBytes := by
    have hbytes := h.bytes
    simp only [weight] at hbytes
    cases channel <;> omega
  refine ⟨hcovered, ?_⟩
  refine h.change channel (fun _ _ => rfl) (fun _ hne => Function.update_of_ne hne _ _)
    (fun _ _ => rfl) hcount ?_ ?_ (.inl (Nat.sub_le _ _)) ?_
  · simp only [weight, release, Function.update_self]
    omega
  · simp only [release, Function.update_self]
    omega
  · intro other hmem
    simp only [release, Function.update_self] at hmem
    refine h.parcels channel other ?_
    rw [hqueue]
    exact List.mem_cons_of_mem _ hmem

/-- What `pop` takes: an event of the node's own, or the first parcel of a channel. -/
theorem pop_cases {event : TransportEvent} (h : node.pop = some (event, after)) :
    (∃ rest, node.system = event :: rest ∧ after = { node with system := rest }) ∨
    (node.system = [] ∧ ∃ channel parcel rest, event = .incoming parcel ∧
      node.incoming channel = parcel :: rest ∧
      after = { node with incoming := Function.update node.incoming channel rest }) := by
  unfold pop at h
  split at h
  · rename_i first rest hsystem
    cases h
    exact .inl ⟨rest, hsystem, rfl⟩
  rename_i hsystem
  refine .inr ⟨hsystem, ?_⟩
  split at h
  · rename_i parcel rest hincoming
    cases h
    exact ⟨.control, parcel, rest, rfl, hincoming, rfl⟩
  · rename_i parcel rest _ hincoming
    cases h
    exact ⟨.action, parcel, rest, rfl, hincoming, rfl⟩
  · rename_i parcel rest _ _ hincoming
    cases h
    exact ⟨.bulk, parcel, rest, rfl, hincoming, rfl⟩
  · cases h

/-- The subtractions `progress` makes while it hands out events, each with the value it
    subtracts from. -/
def takeSubtractions : Nat → Node → List (Nat × Nat)
  | 0, _ => []
  | budget + 1, node =>
    match node.pop with
    | none => []
    | some (.incoming parcel, node) =>
      match parcel.payloadLen with
      | .error _ => []
      | .ok bytes => (node.queuedBytes, bytes) :: takeSubtractions budget (node.release bytes)
    | some (_, node) => takeSubtractions budget node

theorem Charged.take (h : Charged limits delayed index node)
    (hsystem : incomingParcels node.system = []) (budget : Nat) :
    Charged limits delayed index (node.take budget).1 ∧
      (node.take budget).2.2 = .ok () ∧
      (∀ pair ∈ takeSubtractions budget node, pair.2 ≤ pair.1) ∧
      (node.take budget).1.system <:+ node.system ∧
      (node.take budget).1.active = node.active := by
  induction budget generalizing node with
  | zero => exact ⟨h, rfl, by simp [takeSubtractions], List.suffix_refl _, rfl⟩
  | succ budget ih =>
    rw [Node.take, takeSubtractions]
    cases hpop : node.pop with
    | none => exact ⟨h, rfl, by simp, List.suffix_refl _, rfl⟩
    | some popped =>
      obtain ⟨event, left⟩ := popped
      rcases pop_cases hpop with ⟨rest, hevents, rfl⟩ | ⟨-, channel, parcel, rest, rfl, hqueue, rfl⟩
      · have hrest : incomingParcels [event] = [] ∧ incomingParcels rest = [] := by
          rw [hevents, show event :: rest = [event] ++ rest from rfl,
            incomingParcels_append] at hsystem
          exact List.append_eq_nil_iff.mp hsystem
        have hsame : Charged limits delayed index { node with system := rest } :=
          h.congr (fun _ => rfl) rfl rfl rfl
        obtain ⟨hcharged, hok, hsubs, hsuffix, hactive⟩ := ih hsame hrest.2
        have hlonger : (({ node with system := rest } : Node).take budget).1.system <:+
            node.system := by
          rw [hevents]
          exact hsuffix.trans (List.suffix_cons _ _)
        cases event with
        | incoming parcel => cases hrest.1
        | localSendComplete ticket => exact ⟨hcharged, hok, hsubs, hlonger, hactive⟩
        | sendFailed ticket error => exact ⟨hcharged, hok, hsubs, hlonger, hactive⟩
        | peerFailed peer error => exact ⟨hcharged, hok, hsubs, hlonger, hactive⟩
        | shutdownComplete => exact ⟨hcharged, hok, hsubs, hlonger, hactive⟩
      · have hbound : parcel.payload < u64Bound :=
          (h.parcels channel parcel (by rw [hqueue]; exact List.mem_cons_self)).2
        have hlen : parcel.payloadLen = .ok parcel.payload := checked_of_lt hbound
        obtain ⟨hcovered, hsame⟩ := h.hand hqueue
        obtain ⟨hcharged, hok, hsubs, hsuffix, hactive⟩ := ih hsame hsystem
        dsimp only
        rw [hlen]
        refine ⟨hcharged, hok, ?_, hsuffix, hactive⟩
        intro pair hpair
        rcases List.mem_cons.mp hpair with rfl | hlater
        · exact hcovered
        · exact hsubs pair hlater

end Node

/-! ## The network -/

namespace MemoryState

/-- A delayed parcel can be delivered, and its bytes are those of its payload. -/
structure Deliverable (members : Nat) (item : Delayed) : Prop where
  member : item.destination.get.toNat < members
  bytes : item.bytes = item.parcel.payload
  bound : item.parcel.payload < u64Bound

/-- The nodes of a scope are charged for what waits for them, with these delayed parcels. -/
structure Carries (scope : Nat → Prop) (state : MemoryState) (delayed : List Delayed) : Prop where
  parked : ∀ item ∈ delayed, Deliverable state.members item
  nodes : ∀ index, scope index → (state.nodes index).Charged state.limits delayed index
  system : ∀ index, incomingParcels (state.nodes index).system = []

/-- What moving delayed parcels leaves alone. -/
structure Moves (before after : MemoryState) : Prop where
  limits : after.limits = before.limits
  members : after.members = before.members
  stopped : after.stopped = before.stopped
  system : ∀ index, (after.nodes index).system = (before.nodes index).system
  active : ∀ index, (after.nodes index).active = (before.nodes index).active

theorem Moves.refl (state : MemoryState) : Moves state state :=
  ⟨rfl, rfl, rfl, fun _ => rfl, fun _ => rfl⟩

theorem Moves.trans {first second third : MemoryState} (h : Moves first second)
    (hnext : Moves second third) : Moves first third :=
  ⟨hnext.limits.trans h.limits, hnext.members.trans h.members, hnext.stopped.trans h.stopped,
    fun index => (hnext.system index).trans (h.system index),
    fun index => (hnext.active index).trans (h.active index)⟩

/-- The subtractions of `release_delayed`. -/
def releaseSubtractions : List Delayed → MemoryState → List (Nat × Nat)
  | [], _ => []
  | item :: rest, state =>
    if item.releaseAt ≤ state.tick then
      match memberIndex item.destination state.members with
      | .error _ => []
      | .ok peer =>
        let node := state.nodes peer
        (node.delayedCounts item.parcel.channel, 1) :: releaseSubtractions rest (state.setNode peer
          { node with
            delayedCounts := Function.update node.delayedCounts item.parcel.channel
              (node.delayedCounts item.parcel.channel - 1)
            incoming := Function.update node.incoming item.parcel.channel
              (node.incoming item.parcel.channel ++ [item.parcel]) })
    else releaseSubtractions rest state

/-- The subtractions of `cancel_locality`. -/
def cancelSubtractions (locality : LocalityId) : List Delayed → MemoryState → List (Nat × Nat)
  | [], _ => []
  | item :: rest, state =>
    if item.parcel.source = locality ∨ item.destination = locality then
      if item.destination = locality then cancelSubtractions locality rest state
      else
        match memberIndex item.destination state.members with
        | .error _ => []
        | .ok peer =>
          let node := state.nodes peer
          (node.delayedCounts item.parcel.channel, 1) :: (node.queuedBytes, item.bytes) ::
            cancelSubtractions locality rest (state.setNode peer
              { node with
                delayedCounts := Function.update node.delayedCounts item.parcel.channel
                  (node.delayedCounts item.parcel.channel - 1)
                queuedBytes := node.queuedBytes - item.bytes })
    else cancelSubtractions locality rest state

variable {state after : MemoryState} {retained items : List Delayed} {scope : Nat → Prop}

/-- One node changed on account of one delayed parcel that was addressed to it. -/
theorem Carries.setNode {kept rest : List Delayed} {item : Delayed} {node : Node}
    (h : Carries scope state (kept ++ item :: rest))
    (hnode : scope item.destination.get.toNat →
      node.Charged state.limits (kept ++ rest) item.destination.get.toNat)
    (hsystem : node.system = (state.nodes item.destination.get.toNat).system)
    (hactive : node.active = (state.nodes item.destination.get.toNat).active) :
    Carries scope (state.setNode item.destination.get.toNat node) (kept ++ rest) ∧
      Moves state (state.setNode item.destination.get.toNat node) := by
  refine ⟨⟨?_, ?_, ?_⟩, rfl, rfl, rfl, ?_, ?_⟩
  · intro other hmem
    refine h.parked other ?_
    rcases List.mem_append.mp hmem with hkept | hrest
    · exact List.mem_append_left _ hkept
    · exact List.mem_append_right _ (List.mem_cons_of_mem _ hrest)
  · intro index hscope
    by_cases hsame : index = item.destination.get.toNat
    · subst hsame
      rw [setNode_same]
      exact hnode hscope
    · rw [setNode_of_ne hsame]
      exact (h.nodes index hscope).congr
        (fun channel => (Node.delayedTo_elsewhere (Ne.symm hsame) kept rest channel).symm) rfl rfl rfl
  · intro index
    by_cases hsame : index = item.destination.get.toNat
    · subst hsame
      rw [setNode_same, hsystem]
      exact h.system _
    · rw [setNode_of_ne hsame]
      exact h.system index
  · intro index
    by_cases hsame : index = item.destination.get.toNat
    · subst hsame
      rw [setNode_same, hsystem]
    · rw [setNode_of_ne hsame]
  · intro index
    by_cases hsame : index = item.destination.get.toNat
    · subst hsame
      rw [setNode_same, hactive]
    · rw [setNode_of_ne hsame]

/-- What the loops over the delayed parcels keep. -/
structure Settles (scope : Nat → Prop) (state after : MemoryState) (delayed : List Delayed)
    (subtractions : List (Nat × Nat)) : Prop where
  carries : Carries scope after after.delayed
  moves : Moves state after
  covered : ∀ pair ∈ subtractions, pair.2 ≤ pair.1
  fewer : after.delayed ⊆ delayed
  untouched : ∀ index, (∀ item ∈ delayed, item.destination.get.toNat ≠ index) →
    after.nodes index = state.nodes index

theorem append_subset_cons (kept rest : List Delayed) (item : Delayed) :
    kept ++ rest ⊆ kept ++ item :: rest :=
  List.append_subset.mpr ⟨List.subset_append_left _ _,
    List.Subset.trans (List.subset_cons_self item rest) (List.subset_append_right _ _)⟩

theorem Carries.releaseFrom (h : Carries (fun _ => True) state (retained ++ items)) :
    (releaseFrom retained items state).2.2 = .ok () ∧
      Settles (fun _ => True) state (releaseFrom retained items state).1 (retained ++ items)
        (releaseSubtractions items state) := by
  induction items generalizing retained state with
  | nil =>
    rw [List.append_nil] at h ⊢
    exact ⟨rfl, ⟨h.parked, h.nodes, h.system⟩, ⟨rfl, rfl, rfl, fun _ => rfl, fun _ => rfl⟩,
      by simp [releaseSubtractions], List.Subset.refl _, fun _ _ => rfl⟩
  | cons item rest ih =>
    rw [MemoryState.releaseFrom, releaseSubtractions]
    split
    · have hitem := h.parked item (by simp)
      have hmember : memberIndex item.destination state.members =
          .ok item.destination.get.toNat := if_pos hitem.member
      obtain ⟨hcovered, hcharged⟩ :=
        (h.nodes _ trivial).arrive rfl hitem.bytes hitem.bound
      obtain ⟨hnext, hmoves⟩ := h.setNode (fun _ => hcharged) rfl rfl
      obtain ⟨hok, hsettles⟩ := ih hnext
      rw [hmember]
      refine ⟨hok, hsettles.carries, hmoves.trans hsettles.moves, ?_, ?_, ?_⟩
      · intro pair hpair
        rcases List.mem_cons.mp hpair with rfl | hlater
        · exact hcovered
        · exact hsettles.covered pair hlater
      · exact List.Subset.trans hsettles.fewer (append_subset_cons _ _ _)
      · intro index hnone
        rw [hsettles.untouched index fun other hmem =>
          hnone other (append_subset_cons _ _ _ hmem)]
        exact setNode_of_ne fun hsame => hnone item (by simp) hsame.symm
    · have hsame : retained ++ item :: rest = (retained ++ [item]) ++ rest := by simp
      rw [hsame] at h ⊢
      exact ih h

/-- The locality that shuts down is not charged any more: its own counters are cleared. -/
theorem Carries.cancelFrom {locality : LocalityId}
    (h : Carries (· ≠ locality.get.toNat) state (retained ++ items))
    (hretained : ∀ item ∈ retained, item.parcel.source ≠ locality ∧ item.destination ≠ locality) :
    (cancelFrom locality retained items state).2 = .ok () ∧
      Settles (· ≠ locality.get.toNat) state (cancelFrom locality retained items state).1
        (retained ++ items) (cancelSubtractions locality items state) ∧
      ∀ item ∈ (cancelFrom locality retained items state).1.delayed,
        item.parcel.source ≠ locality ∧ item.destination ≠ locality := by
  induction items generalizing retained state with
  | nil =>
    rw [List.append_nil] at h ⊢
    exact ⟨rfl, ⟨⟨h.parked, h.nodes, h.system⟩, ⟨rfl, rfl, rfl, fun _ => rfl, fun _ => rfl⟩,
      by simp [cancelSubtractions], List.Subset.refl _, fun _ _ => rfl⟩, hretained⟩
  | cons item rest ih =>
    rw [MemoryState.cancelFrom, cancelSubtractions]
    split
    · split
      · rename_i hmine
        -- what was addressed to the locality itself is dropped with its counters
        have hnext : Carries (· ≠ locality.get.toNat) state (retained ++ rest) :=
          ⟨fun other hmem => h.parked other (append_subset_cons _ _ _ hmem), fun index hscope =>
            (h.nodes index hscope).congr (fun channel => (Node.delayedTo_elsewhere
              (by rw [hmine]; exact Ne.symm hscope) retained rest channel).symm) rfl rfl rfl,
            h.system⟩
        obtain ⟨hok, hsettles, hgone⟩ := ih hnext hretained
        exact ⟨hok, ⟨hsettles.carries, hsettles.moves, hsettles.covered,
          List.Subset.trans hsettles.fewer (append_subset_cons _ _ _), fun index hnone =>
            hsettles.untouched index fun other hmem => hnone other (append_subset_cons _ _ _ hmem)⟩, hgone⟩
      · rename_i hother
        have hitem := h.parked item (by simp)
        have hmember : memberIndex item.destination state.members =
            .ok item.destination.get.toNat := if_pos hitem.member
        have hscope : item.destination.get.toNat ≠ locality.get.toNat := fun hsame =>
          hother (localityId_ext hsame)
        obtain ⟨hcount, hbytes, hcharged⟩ := (h.nodes _ hscope).forget rfl
        obtain ⟨hnext, hmoves⟩ := h.setNode (fun _ => hcharged) rfl rfl
        obtain ⟨hok, hsettles, hgone⟩ := ih hnext hretained
        rw [hmember]
        refine ⟨hok, ⟨hsettles.carries, hmoves.trans hsettles.moves, ?_,
          List.Subset.trans hsettles.fewer (append_subset_cons _ _ _), ?_⟩, hgone⟩
        · intro pair hpair
          rcases List.mem_cons.mp hpair with rfl | hpair
          · exact hcount
          rcases List.mem_cons.mp hpair with rfl | hlater
          · exact hbytes
          · exact hsettles.covered pair hlater
        · intro index hnone
          rw [hsettles.untouched index fun other hmem => hnone other (append_subset_cons _ _ _ hmem)]
          exact setNode_of_ne fun hsame => hnone item (by simp) hsame.symm
    · rename_i hkeep
      have hsame : retained ++ item :: rest = (retained ++ [item]) ++ rest := by simp
      rw [hsame] at h ⊢
      refine ih h ?_
      intro other hmem
      rcases List.mem_append.mp hmem with hold | hnew
      · exact hretained other hold
      · rw [List.mem_singleton.mp hnew]
        exact not_or.mp hkeep

/-- A locality that has shut down: it holds nothing, and nothing is on its way from or to it. -/
structure Gone (state : MemoryState) (index : Nat) : Prop where
  active : (state.nodes index).active = false
  system : (state.nodes index).system = []
  incoming : ∀ channel, (state.nodes index).incoming channel = []
  delayed : ∀ item ∈ state.delayed,
    item.parcel.source.get.toNat ≠ index ∧ item.destination.get.toNat ≠ index

/-- What every call keeps. -/
structure Metered (state : MemoryState) : Prop where
  carries : Carries (fun _ => True) state state.delayed
  gone : ∀ index, state.stopped index = true → state.Gone index

/-- A locality that has shut down is not touched by what moves delayed parcels. -/
theorem Gone.settles {delayed : List Delayed} {subtractions : List (Nat × Nat)} {index : Nat}
    (h : state.Gone index) (hsettles : Settles scope state after delayed subtractions)
    (hdelayed : delayed = state.delayed) : after.Gone index := by
  subst hdelayed
  have hnode : after.nodes index = state.nodes index :=
    hsettles.untouched index fun item hmem => (h.delayed item hmem).2
  exact ⟨by rw [hnode]; exact h.active, by rw [hnode]; exact h.system,
    by rw [hnode]; exact h.incoming, fun item hmem => h.delayed item (hsettles.fewer hmem)⟩

/-- One node changed that has not shut down. -/
theorem Metered.setNode (h : state.Metered) {index : Nat} {node : Node}
    (hcharged : node.Charged state.limits state.delayed index)
    (hsystem : incomingParcels node.system = [])
    (hlive : state.stopped index ≠ true) : (state.setNode index node).Metered := by
  refine ⟨⟨h.carries.parked, ?_, ?_⟩, ?_⟩
  · intro other _
    by_cases hsame : other = index
    · subst hsame
      rw [setNode_same]
      exact hcharged
    · rw [setNode_of_ne hsame]
      exact h.carries.nodes other trivial
  · intro other
    by_cases hsame : other = index
    · subst hsame
      rw [setNode_same]
      exact hsystem
    · rw [setNode_of_ne hsame]
      exact h.carries.system other
  · intro other hstopped
    have hne : other ≠ index := by
      rintro rfl
      exact hlive hstopped
    have hgone := h.gone other hstopped
    refine ⟨?_, ?_, ?_, hgone.delayed⟩
    · rw [setNode_of_ne hne]
      exact hgone.active
    · rw [setNode_of_ne hne]
      exact hgone.system
    · rw [setNode_of_ne hne]
      exact hgone.incoming

theorem Metered.live (h : state.Metered) {index : Nat} (hactive : (state.nodes index).active = true) :
    state.stopped index ≠ true := by
  intro hstopped
  have hgone := (h.gone index hstopped).active
  rw [hactive] at hgone
  cases hgone

/-! ## Sending -/

/-- What a granted reservation has found. -/
theorem reserve_ok {peer bytes copies : Nat} {parcel : Parcel}
    (h : state.reserve peer parcel bytes copies = .ok ()) :
    (state.nodes peer).active = true ∧
      ((state.nodes peer).incoming parcel.channel).length +
        (state.nodes peer).delayedCounts parcel.channel + copies ≤
          state.limits.maxQueuedParcelsPerPeer ∧
      (state.nodes peer).queuedBytes + bytes * copies ≤
        SubmissionState.byteLimit state.limits parcel.channel := by
  unfold MemoryState.reserve at h
  dsimp only at h
  split at h
  · cases h
  rename_i hactive
  split at h
  · cases h
  split at h
  · cases h
  rename_i hroom
  split at h
  · cases h
  split at h
  · cases h
  rename_i hbudget
  exact ⟨by simpa using hactive, not_lt.mp hroom, not_lt.mp hbudget⟩

theorem Metered.enqueue (h : state.Metered) {peer : Nat} {parcel : Parcel}
    (hbound : parcel.payload < u64Bound) (hactive : (state.nodes peer).active = true)
    (hroom : ((state.nodes peer).incoming parcel.channel).length +
      (state.nodes peer).delayedCounts parcel.channel + 1 ≤ state.limits.maxQueuedParcelsPerPeer)
    (hbudget : (state.nodes peer).queuedBytes + parcel.payload ≤
      SubmissionState.byteLimit state.limits parcel.channel) (front : Bool) :
    (state.enqueue peer parcel parcel.payload front).Metered :=
  h.setNode ((h.carries.nodes peer trivial).enqueue hbound hroom hbudget front)
    (h.carries.system peer) (h.live hactive)

theorem Metered.pushSystem (h : state.Metered) {me : Nat} {event : TransportEvent}
    (hactive : (state.nodes me).active = true) (hevent : incomingParcels [event] = []) :
    (state.pushSystem me event).Metered := by
  refine h.setNode ((h.carries.nodes me trivial).congr (fun _ => rfl) rfl rfl rfl) ?_
    (h.live hactive)
  rw [incomingParcels_append, h.carries.system me, hevent]
  rfl

/-- Whatever the fault, an accepted parcel is charged once for each copy, and a rejected one
    changes nothing. -/
theorem Metered.inject (h : state.Metered) {me peer : Nat} {parcel : Parcel}
    (hme : (state.nodes me).active = true) (hsource : parcel.source.get.toNat = me)
    (hpeer : memberIndex parcel.destination state.members = .ok peer)
    (hbound : parcel.payload < u64Bound) (fault : MemoryFault) :
    (state.inject me peer parcel parcel.payload fault).1.Metered ∧
      ((state.inject me peer parcel parcel.payload fault).1.nodes me).active = true ∧
      ∀ error, (state.inject me peer parcel parcel.payload fault).2.2 = .error error →
        (state.inject me peer parcel parcel.payload fault).1 = state := by
  obtain ⟨rfl, hmember⟩ := memberIndex_ok hpeer
  have hkept : ∀ {index : Nat} {node : Node}, node.active = (state.nodes index).active →
      ((state.setNode index node).nodes me).active = true := by
    intro index node hsame
    by_cases heq : me = index
    · subst heq
      rw [setNode_same, hsame]
      exact hme
    · rw [setNode_of_ne heq]
      exact hme
  cases fault with
  | saturate => exact ⟨h, hme, fun _ _ => rfl⟩
  | loss => exact ⟨h, hme, fun _ _ => rfl⟩
  | disconnect =>
    refine ⟨h.pushSystem hme rfl, hkept rfl, ?_⟩
    intro error herror
    cases herror
  | pass =>
    rw [MemoryState.inject]
    split
    · exact ⟨h, hme, fun _ _ => rfl⟩
    · rename_i hreserve
      obtain ⟨hactive, hroom, hbudget⟩ := reserve_ok hreserve
      refine ⟨h.enqueue hbound hactive hroom (by omega) false, hkept rfl, ?_⟩
      intro error herror
      cases herror
  | reorder =>
    rw [MemoryState.inject]
    split
    · exact ⟨h, hme, fun _ _ => rfl⟩
    · rename_i hreserve
      obtain ⟨hactive, hroom, hbudget⟩ := reserve_ok hreserve
      refine ⟨h.enqueue hbound hactive hroom (by omega) true, hkept rfl, ?_⟩
      intro error herror
      cases herror
  | duplicate =>
    rw [MemoryState.inject]
    split
    · exact ⟨h, hme, fun _ _ => rfl⟩
    · rename_i hreserve
      obtain ⟨hactive, hroom, hbudget⟩ := reserve_ok hreserve
      -- the reservation was for both copies
      have hone := h.enqueue hbound hactive (by omega) (by omega) false
      refine ⟨hone.enqueue hbound ?_ ?_ ?_ false, ?_, ?_⟩
      · simp [MemoryState.enqueue, hactive]
      · simp only [MemoryState.enqueue, setNode_same, Function.update_self, Bool.false_eq_true,
          if_false, List.length_append, List.length_singleton]
        change _ ≤ state.limits.maxQueuedParcelsPerPeer
        omega
      · simp only [MemoryState.enqueue, setNode_same]
        change _ ≤ SubmissionState.byteLimit state.limits _
        omega
      · by_cases heq : me = parcel.destination.get.toNat
        · subst heq
          simp [MemoryState.enqueue, hactive]
        · simp [MemoryState.enqueue, setNode_of_ne heq, hme]
      · intro error herror
        cases herror
  | delay progressTicks =>
    rw [MemoryState.inject]
    split
    · exact ⟨h, hme, fun _ _ => rfl⟩
    · rename_i hreserve
      obtain ⟨hactive, hroom, hbudget⟩ := reserve_ok hreserve
      refine ⟨⟨⟨?_, ?_, ?_⟩, ?_⟩, hkept rfl, ?_⟩
      · intro item hmem
        rcases List.mem_append.mp hmem with hold | hnew
        · exact h.carries.parked item hold
        · rw [List.mem_singleton.mp hnew]
          exact ⟨hmember, rfl, hbound⟩
      · intro index _
        by_cases heq : index = parcel.destination.get.toNat
        · subst heq
          simp only [setNode_same]
          have hfits : (state.nodes parcel.destination.get.toNat).queuedBytes + parcel.payload ≤
              SubmissionState.byteLimit state.limits parcel.channel := by omega
          exact (h.carries.nodes _ trivial).park rfl hroom hfits
        · simp only [setNode_of_ne heq]
          refine (h.carries.nodes index trivial).congr ?_ rfl rfl rfl
          intro channel
          exact (Node.delayedTo_elsewhere (Ne.symm heq) state.delayed [] channel).trans
            (by rw [List.append_nil])
      · intro index
        by_cases heq : index = parcel.destination.get.toNat
        · subst heq
          simp only [setNode_same]
          exact h.carries.system _
        · simp only [setNode_of_ne heq]
          exact h.carries.system index
      · intro index hstopped
        have hgone := h.gone index hstopped
        have hne : ∀ {other : Nat}, (state.nodes other).active = true → other ≠ index := by
          rintro other hother rfl
          rw [hgone.active] at hother
          cases hother
        have hnode : ∀ node, (state.setNode parcel.destination.get.toNat node).nodes index =
            state.nodes index := fun node => setNode_of_ne (hne hactive).symm
        refine ⟨?_, ?_, ?_, ?_⟩
        · simp only [hnode]
          exact hgone.active
        · simp only [hnode]
          exact hgone.system
        · simp only [hnode]
          exact hgone.incoming
        · intro item hmem
          rcases List.mem_append.mp hmem with hold | hnew
          · exact hgone.delayed item hold
          · rw [List.mem_singleton.mp hnew]
            exact ⟨by rw [hsource]; exact hne hme, hne hactive⟩
      · intro error herror
        cases herror

/-- What `try_send` checks before a fault is taken. -/
structure Admits (state : MemoryState) (localId : LocalityId) (parcel : Parcel) : Prop where
  member : localId.get.toNat < state.members
  active : (state.nodes localId.get.toNat).active = true
  runId : parcel.runId = state.runId
  source : parcel.source = localId
  valid : parcel.validate state.limits = .ok ()
  destination : parcel.destination.get.toNat < state.members
  room : (state.nodes localId.get.toNat).system.length < state.limits.maxQueuedParcelsPerPeer

/-- A send is refused by a check, or takes a ticket and a fault. -/
theorem trySend_admits (state : MemoryState) (localId : LocalityId) (parcel : Parcel) :
    (∃ error, state.trySend localId parcel = (state, [], .error error)) ∨
      state.Admits localId parcel ∧ parcel.payload < u64Bound ∧
        state.trySend localId parcel = state.submit localId.get.toNat
          parcel.destination.get.toNat parcel parcel.payload := by
  unfold trySend
  split
  · exact Or.inl ⟨_, rfl⟩
  rename_i me hme
  obtain ⟨rfl, hmember⟩ := memberIndex_ok hme
  split
  · exact Or.inl ⟨_, rfl⟩
  rename_i hactive
  split
  · exact Or.inl ⟨_, rfl⟩
  rename_i hrun
  split
  · exact Or.inl ⟨_, rfl⟩
  rename_i hsource
  split
  · exact Or.inl ⟨_, rfl⟩
  rename_i hvalid
  split
  · exact Or.inl ⟨_, rfl⟩
  rename_i peer hpeer
  obtain ⟨rfl, hdestination⟩ := memberIndex_ok hpeer
  split
  · exact Or.inl ⟨_, rfl⟩
  rename_i hroom
  split
  · exact Or.inl ⟨_, rfl⟩
  rename_i bytes hbytes
  obtain ⟨rfl, hbound⟩ := checked_ok hbytes
  exact Or.inr ⟨⟨hmember, by simpa using hactive, not_not.mp hrun, not_not.mp hsource, hvalid,
    hdestination, not_le.mp hroom⟩, hbound, rfl⟩

/-- A ticket and a fault are gone, whatever becomes of the parcel. -/
theorem Metered.taken (h : state.Metered) (nextTicket : Nat) (faults : List MemoryFault) :
    Metered { state with nextTicket := nextTicket, faults := faults } :=
  ⟨⟨h.carries.parked, h.carries.nodes, h.carries.system⟩, fun index hstopped =>
    ⟨(h.gone index hstopped).active, (h.gone index hstopped).system,
      (h.gone index hstopped).incoming, (h.gone index hstopped).delayed⟩⟩

theorem Metered.trySend (h : state.Metered) (localId : LocalityId) (parcel : Parcel) :
    (state.trySend localId parcel).1.Metered ∧
      ∀ error, (state.trySend localId parcel).2.2 = .error error →
        (state.trySend localId parcel).1.nodes = state.nodes ∧
        (state.trySend localId parcel).1.delayed = state.delayed := by
  rcases state.trySend_admits localId parcel with ⟨error, hsend⟩ | ⟨hadmits, hbound, hsend⟩
  · rw [hsend]
    exact ⟨h, fun _ _ => ⟨rfl, rfl⟩⟩
  rw [hsend, submit]
  split
  · exact ⟨h, fun _ _ => ⟨rfl, rfl⟩⟩
  dsimp only
  have hsource : parcel.source.get.toNat = localId.get.toNat := by rw [hadmits.source]
  obtain ⟨hmetered, hactive, hrefused⟩ :=
    (h.taken (state.nextTicket + 1) state.faults.tail).inject hadmits.active hsource
      (if_pos hadmits.destination) hbound (state.faults.headD .pass)
  generalize MemoryState.inject _ localId.get.toNat parcel.destination.get.toNat parcel
    parcel.payload (state.faults.headD .pass) = step at hmetered hactive hrefused ⊢
  obtain ⟨next, arrivals, result⟩ := step
  cases result with
  | error error =>
    obtain rfl : next = _ := hrefused error rfl
    exact ⟨hmetered, fun _ _ => ⟨rfl, rfl⟩⟩
  | ok done =>
    refine ⟨hmetered.pushSystem hactive rfl, ?_⟩
    intro error herror
    cases herror

/-! ## The clock -/

/-- The subtractions of a tick. -/
def tickSubtractions (state : MemoryState) : List (Nat × Nat) :=
  releaseSubtractions state.delayed { state with tick := saturatingAdd state.tick 1 }

theorem Metered.tickAndRelease (h : state.Metered) :
    state.tickAndRelease.2.2 = .ok () ∧ state.tickAndRelease.1.Metered ∧
      Moves state state.tickAndRelease.1 ∧
      ∀ pair ∈ state.tickSubtractions, pair.2 ≤ pair.1 := by
  have hticked : Carries (fun _ => True) { state with tick := saturatingAdd state.tick 1 }
      ([] ++ state.delayed) := ⟨h.carries.parked, h.carries.nodes, h.carries.system⟩
  obtain ⟨hok, hsettles⟩ := hticked.releaseFrom
  have hmoves : Moves state state.tickAndRelease.1 :=
    ⟨hsettles.moves.limits, hsettles.moves.members, hsettles.moves.stopped,
      hsettles.moves.system, hsettles.moves.active⟩
  refine ⟨hok, ⟨hsettles.carries, ?_⟩, hmoves, hsettles.covered⟩
  intro index hstopped
  rw [hmoves.stopped] at hstopped
  have hgone := h.gone index hstopped
  have hsame : Gone { state with tick := saturatingAdd state.tick 1 } index :=
    ⟨hgone.active, hgone.system, hgone.incoming, hgone.delayed⟩
  exact hsame.settles hsettles rfl

/-- The subtractions of `flush`. -/
def flushSubtractions (localId : LocalityId) : Nat → MemoryState → List (Nat × Nat)
  | rounds, state =>
    state.tickSubtractions ++
      match state.tickAndRelease with
      | (_, _, .error _) => []
      | (state, _, .ok ()) =>
        if state.delayed.any fun item => item.parcel.source = localId then
          match rounds with
          | 0 => []
          | rounds + 1 => flushSubtractions localId rounds state
        else []

theorem Metered.flush (h : state.Metered) (localId : LocalityId) (rounds : Nat) :
    (flush localId rounds state).1.Metered ∧ Moves state (flush localId rounds state).1 ∧
      (∀ pair ∈ flushSubtractions localId rounds state, pair.2 ≤ pair.1) ∧
      ((flush localId rounds state).2.2 = .ok () →
        ∀ item ∈ (flush localId rounds state).1.delayed, item.parcel.source ≠ localId) := by
  induction rounds generalizing state with
  | zero =>
    obtain ⟨hok, hmetered, hmoves, hsubs⟩ := h.tickAndRelease
    rw [MemoryState.flush, flushSubtractions]
    generalize state.tickAndRelease = step at hok hmetered hmoves ⊢
    obtain ⟨next, arrivals, result⟩ := step
    cases hok
    dsimp only at hmetered hmoves ⊢
    split
    · refine ⟨hmetered, hmoves, by simpa using hsubs, ?_⟩
      intro hresult
      cases hresult
    · rename_i hnone
      refine ⟨hmetered, hmoves, by simpa using hsubs, ?_⟩
      intro _ item hmem hsource
      exact hnone (List.any_eq_true.mpr ⟨item, hmem, by simpa using hsource⟩)
  | succ rounds ih =>
    obtain ⟨hok, hmetered, hmoves, hsubs⟩ := h.tickAndRelease
    rw [MemoryState.flush, flushSubtractions]
    generalize state.tickAndRelease = step at hok hmetered hmoves ⊢
    obtain ⟨next, arrivals, result⟩ := step
    cases hok
    dsimp only at hmetered hmoves ⊢
    split
    · obtain ⟨hlast, hmore, hlater, hflushed⟩ := ih hmetered
      refine ⟨hlast, hmoves.trans hmore, ?_, hflushed⟩
      intro pair hpair
      exact (List.mem_append.mp hpair).elim (hsubs pair) (hlater pair)
    · rename_i hnone
      refine ⟨hmetered, hmoves, by simpa using hsubs, ?_⟩
      intro _ item hmem hsource
      exact hnone (List.any_eq_true.mpr ⟨item, hmem, by simpa using hsource⟩)

/-! ## Progress and shutdown -/

/-- The subtractions a call makes, each with the value it subtracts from. A data channel's byte
    limit is what the control reserve leaves of the budget. -/
def subtractions (state : MemoryState) : Op → List (Nat × Nat)
  | .trySend _ _ =>
    [(state.limits.maxInflightBytesPerPeer, state.limits.controlReservedBytesPerPeer)]
  | .progress localId maxEvents =>
    if state.stopped localId.get.toNat then []
    else state.tickSubtractions ++
      (state.tickAndRelease.1.nodes localId.get.toNat).takeSubtractions maxEvents
  | .flush localId rounds => flushSubtractions localId rounds state
  | .shutdown localId rounds =>
    flushSubtractions localId rounds (state.deactivate localId.get.toNat) ++
      cancelSubtractions localId (flush localId rounds (state.deactivate localId.get.toNat)).1.delayed
        (flush localId rounds (state.deactivate localId.get.toNat)).1

theorem Metered.progress (h : state.Metered) (localId : LocalityId) (maxEvents : Nat) :
    (state.progress localId maxEvents).1.Metered ∧
      (∀ pair ∈ state.subtractions (.progress localId maxEvents), pair.2 ≤ pair.1) ∧
      (state.progress localId maxEvents).1.limits = state.limits ∧
      (state.progress localId maxEvents).1.stopped = state.stopped ∧
      ∀ index, ((state.progress localId maxEvents).1.nodes index).system <:+
        (state.nodes index).system := by
  rw [MemoryState.progress, subtractions]
  split
  · exact ⟨h, by simp, rfl, rfl, fun _ => List.suffix_refl _⟩
  rename_i hrunning
  obtain ⟨hok, hmetered, hmoves, hsubs⟩ := h.tickAndRelease
  generalize state.tickAndRelease = step at hok hmetered hmoves ⊢
  obtain ⟨next, arrivals, result⟩ := step
  cases hok
  dsimp only at hmetered hmoves ⊢
  obtain ⟨hcharged, htaken, hhanded, hsuffix, -⟩ :=
    (hmetered.carries.nodes localId.get.toNat trivial).take
      (hmetered.carries.system localId.get.toNat) maxEvents
  have hcovered : ∀ pair ∈ state.tickSubtractions ++
      (next.nodes localId.get.toNat).takeSubtractions maxEvents, pair.2 ≤ pair.1 := fun pair hpair =>
    (List.mem_append.mp hpair).elim (hsubs pair) (hhanded pair)
  split
  · refine ⟨hmetered, hcovered, hmoves.limits, hmoves.stopped, ?_⟩
    intro index
    rw [hmoves.system index]
  rename_i me hme
  obtain ⟨rfl, -⟩ := memberIndex_ok hme
  have hsystem : incomingParcels ((next.nodes localId.get.toNat).take maxEvents).1.system = [] := by
    have hall := hmetered.carries.system localId.get.toNat
    obtain ⟨popped, happend⟩ := hsuffix
    rw [← happend, incomingParcels_append] at hall
    exact (List.append_eq_nil_iff.mp hall).2
  have hlive : next.stopped localId.get.toNat ≠ true := by
    rw [hmoves.stopped]
    exact hrunning
  generalize (next.nodes localId.get.toNat).take maxEvents = step at hcharged htaken hsuffix hsystem ⊢
  obtain ⟨node, events, result⟩ := step
  cases htaken
  dsimp only at hcharged hsuffix hsystem ⊢
  refine ⟨hmetered.setNode hcharged hsystem hlive, hcovered, hmoves.limits, hmoves.stopped, ?_⟩
  intro index
  rw [← hmoves.system index]
  by_cases hsame : index = localId.get.toNat
  · subst hsame
    rw [setNode_same]
    exact hsuffix
  · rw [setNode_of_ne hsame]

theorem Metered.deactivate (h : state.Metered) (me : Nat) : (state.deactivate me).Metered := by
  refine ⟨⟨h.carries.parked, ?_, ?_⟩, ?_⟩
  · intro index _
    by_cases hsame : index = me
    · subst hsame
      rw [MemoryState.deactivate, setNode_same]
      exact (h.carries.nodes index trivial).congr (fun _ => rfl) rfl rfl rfl
    · rw [MemoryState.deactivate, setNode_of_ne hsame]
      exact h.carries.nodes index trivial
  · intro index
    by_cases hsame : index = me
    · subst hsame
      rw [MemoryState.deactivate, setNode_same]
      exact h.carries.system index
    · rw [MemoryState.deactivate, setNode_of_ne hsame]
      exact h.carries.system index
  · intro index hstopped
    have hgone := h.gone index hstopped
    by_cases hsame : index = me
    · subst hsame
      rw [MemoryState.deactivate]
      exact ⟨by rw [setNode_same], by rw [setNode_same]; exact hgone.system,
        by rw [setNode_same]; exact hgone.incoming, hgone.delayed⟩
    · rw [MemoryState.deactivate]
      exact ⟨by rw [setNode_of_ne hsame]; exact hgone.active,
        by rw [setNode_of_ne hsame]; exact hgone.system,
        by rw [setNode_of_ne hsame]; exact hgone.incoming, hgone.delayed⟩

theorem deactivate_frame (state : MemoryState) (me index : Nat) :
    ((state.deactivate me).nodes index).system = (state.nodes index).system := by
  by_cases hsame : index = me
  · subst hsame
    rw [deactivate, setNode_same]
  · rw [deactivate, setNode_of_ne hsame]

/-- A cleared node is charged for nothing, which is right once nothing is on its way to it. -/
theorem charged_cleared {node : Node} {delayed : List Delayed} {me : Nat} (limits : ProtocolLimits)
    (hnone : ∀ item ∈ delayed, item.destination.get.toNat ≠ me) :
    node.clear.Charged limits delayed me := by
  have hempty : ∀ channel, delayedTo delayed me channel = [] := by
    intro channel
    refine List.filter_eq_nil_iff.mpr fun item hmem => ?_
    simp [hnone item hmem]
  exact (Node.charged_default limits me).congr hempty rfl rfl rfl

theorem Metered.shutDown (h : state.Metered) (localId : LocalityId) (rounds : Nat) :
    (state.shutDown localId rounds).1.Metered ∧
      (∀ pair ∈ state.subtractions (.shutdown localId rounds), pair.2 ≤ pair.1) ∧
      (state.shutDown localId rounds).1.limits = state.limits ∧
      (∀ index, ((state.shutDown localId rounds).1.nodes index).system <:+
        (state.nodes index).system) ∧
      (∀ index, state.stopped index = true →
        (state.shutDown localId rounds).1.stopped index = true) ∧
      ((state.shutDown localId rounds).2.2.2 = .ok () →
        (state.shutDown localId rounds).1.stopped localId.get.toNat = true) := by
  obtain ⟨hflushed, hmoves, hsubs, hnone⟩ := (h.deactivate localId.get.toNat).flush localId rounds
  rw [MemoryState.shutDown, subtractions]
  have hstart : Carries (· ≠ localId.get.toNat)
      (MemoryState.flush localId rounds (state.deactivate localId.get.toNat)).1
      ([] ++ (MemoryState.flush localId rounds (state.deactivate localId.get.toNat)).1.delayed) :=
    ⟨hflushed.carries.parked, fun index _ => hflushed.carries.nodes index trivial,
      hflushed.carries.system⟩
  obtain ⟨hok, hsettles, hgone⟩ := hstart.cancelFrom (List.forall_mem_nil _)
  have hcovered := fun pair hpair =>
    (List.mem_append.mp hpair).elim (hsubs pair) (hsettles.covered pair)
  split
  · exact ⟨h, hcovered, rfl, fun _ => List.suffix_refl _, fun _ hstopped => hstopped,
      fun hresult => by cases hresult⟩
  rename_i me hme
  obtain ⟨rfl, -⟩ := memberIndex_ok hme
  generalize MemoryState.flush localId rounds (state.deactivate localId.get.toNat) = step
    at hflushed hmoves hnone hok hsettles hgone hcovered ⊢
  obtain ⟨flushed, arrivals, result⟩ := step
  dsimp only at hflushed hmoves hnone hok hsettles hgone hcovered ⊢
  have hsystem : ∀ index, (flushed.nodes index).system = (state.nodes index).system := fun index =>
    (hmoves.system index).trans (deactivate_frame state _ index)
  cases result with
  | error error =>
    refine ⟨hflushed, hcovered, hmoves.limits, ?_, ?_, ?_⟩
    · intro index
      dsimp only
      rw [hsystem index]
    · intro index hstopped
      dsimp only
      rw [hmoves.stopped]
      exact hstopped
    · intro hresult
      cases hresult
  | ok done =>
    dsimp only
    rw [MemoryState.cancelLocality]
    have hneither : ∀ {other : LocalityId}, other ≠ localId → other.get.toNat ≠ localId.get.toNat :=
      fun hne hsame => hne (localityId_ext hsame)
    generalize MemoryState.cancelFrom localId [] flushed.delayed flushed = step
      at hok hsettles hgone ⊢
    obtain ⟨cancelled, result⟩ := step
    cases hok
    dsimp only at hsettles hgone ⊢
    refine ⟨⟨⟨hsettles.carries.parked, ?_, ?_⟩, ?_⟩, hcovered,
      hsettles.moves.limits.trans hmoves.limits, ?_, ?_, fun _ => Function.update_self _ _ _⟩
    · intro index _
      by_cases hsame : index = localId.get.toNat
      · subst hsame
        dsimp only
        rw [setNode_same]
        exact charged_cleared _ fun item hmem => hneither (hgone item hmem).2
      · dsimp only
        rw [setNode_of_ne hsame, MemoryState.deactivate, setNode_of_ne hsame]
        exact hsettles.carries.nodes index hsame
    · intro index
      by_cases hsame : index = localId.get.toNat
      · subst hsame
        dsimp only
        rw [setNode_same]
        rfl
      · dsimp only
        rw [setNode_of_ne hsame, MemoryState.deactivate, setNode_of_ne hsame]
        exact hsettles.carries.system index
    · intro index hstopped
      by_cases hsame : index = localId.get.toNat
      · subst hsame
        refine ⟨?_, ?_, ?_, fun item hmem => ⟨hneither (hgone item hmem).1,
          hneither (hgone item hmem).2⟩⟩
        · simp [MemoryState.deactivate, Node.clear]
        · simp [MemoryState.deactivate, Node.clear]
        · simp [MemoryState.deactivate, Node.clear]
      · dsimp only at hstopped
        rw [Function.update_of_ne hsame, hsettles.moves.stopped] at hstopped
        have hold := (hflushed.gone index hstopped).settles hsettles (List.nil_append _)
        refine ⟨?_, ?_, ?_, hold.delayed⟩
        · simp only [MemoryState.deactivate, setNode_of_ne hsame]
          exact hold.active
        · simp only [MemoryState.deactivate, setNode_of_ne hsame]
          exact hold.system
        · simp only [MemoryState.deactivate, setNode_of_ne hsame]
          exact hold.incoming
    · intro index
      by_cases hsame : index = localId.get.toNat
      · subst hsame
        simp [Node.clear]
      · simp only [MemoryState.deactivate, setNode_of_ne hsame]
        rw [hsettles.moves.system, hsystem]
    · intro index hstopped
      by_cases hsame : index = localId.get.toNat
      · subst hsame
        exact Function.update_self _ _ _
      · rw [Function.update_of_ne hsame, hsettles.moves.stopped, hmoves.stopped]
        exact hstopped

/-! ## Runs -/

/-- What a fault does to the system queues: only a `Disconnect` reports something there, and it
    always succeeds. -/
theorem inject_frame (state : MemoryState) (me peer : Nat) (parcel : Parcel) (bytes : Nat)
    (fault : MemoryFault) :
    (state.inject me peer parcel bytes fault).1.limits = state.limits ∧
      (state.inject me peer parcel bytes fault).1.stopped = state.stopped ∧
      (∀ index, ((state.inject me peer parcel bytes fault).1.nodes index).system =
        (state.nodes index).system ++ if fault = .disconnect ∧ index = me then
          [.peerFailed parcel.destination (.disconnected parcel.destination)] else []) ∧
      (fault = .disconnect → (state.inject me peer parcel bytes fault).2.2 = .ok ()) := by
  cases fault with
  | saturate => simp [MemoryState.inject]
  | loss => simp [MemoryState.inject]
  | disconnect =>
    refine ⟨rfl, rfl, ?_, fun _ => rfl⟩
    intro index
    by_cases heq : index = me
    · subst heq
      simp [MemoryState.inject, MemoryState.pushSystem]
    · simp [MemoryState.inject, MemoryState.pushSystem, setNode_of_ne heq, heq]
  | pass =>
    rw [MemoryState.inject]
    split
    · simp
    · refine ⟨rfl, rfl, ?_, by simp⟩
      intro index
      by_cases heq : index = peer
      · subst heq
        simp [MemoryState.enqueue]
      · simp [MemoryState.enqueue, setNode_of_ne heq]
  | reorder =>
    rw [MemoryState.inject]
    split
    · simp
    · refine ⟨rfl, rfl, ?_, by simp⟩
      intro index
      by_cases heq : index = peer
      · subst heq
        simp [MemoryState.enqueue]
      · simp [MemoryState.enqueue, setNode_of_ne heq]
  | delay progressTicks =>
    rw [MemoryState.inject]
    split
    · simp
    · refine ⟨rfl, rfl, ?_, by simp⟩
      intro index
      by_cases heq : index = peer
      · subst heq
        simp
      · simp [setNode_of_ne heq]
  | duplicate =>
    rw [MemoryState.inject]
    split
    · simp
    · refine ⟨rfl, rfl, ?_, by simp⟩
      intro index
      by_cases heq : index = peer
      · subst heq
        simp [MemoryState.enqueue]
      · simp [MemoryState.enqueue, setNode_of_ne heq]

/-- A send that gets past the checks takes a `Disconnect` from the script. -/
def TakesDisconnect (state : MemoryState) (localId : LocalityId) (parcel : Parcel) : Prop :=
  state.Admits localId parcel ∧ parcel.payload < u64Bound ∧ state.nextTicket + 1 < u64Bound ∧
    state.faults.headD .pass = .disconnect

/-- A send that passes every check takes a ticket and a fault. -/
theorem Admits.trySend {localId : LocalityId} {parcel : Parcel} (h : state.Admits localId parcel)
    (hbound : parcel.payload < u64Bound) :
    state.trySend localId parcel = state.submit localId.get.toNat
      parcel.destination.get.toNat parcel parcel.payload := by
  have hme : memberIndex localId state.members = .ok localId.get.toNat := if_pos h.member
  have hpeer : memberIndex parcel.destination state.members =
      .ok parcel.destination.get.toNat := if_pos h.destination
  have hlen : parcel.payloadLen = .ok parcel.payload := checked_of_lt hbound
  unfold MemoryState.trySend
  rw [hme]
  dsimp only
  rw [if_neg (by simp [h.active]), if_neg (not_not.mpr h.runId), if_neg (not_not.mpr h.source),
    h.valid]
  dsimp only
  rw [hpeer]
  dsimp only
  rw [if_neg (not_le.mpr h.room), hlen]

/-- What a send does to the system queues: nothing if it is refused, else a completion, behind
    the failure that a `Disconnect` reports. -/
theorem trySend_system (state : MemoryState) (localId : LocalityId) (parcel : Parcel) :
    (state.trySend localId parcel).1.limits = state.limits ∧
      (state.trySend localId parcel).1.stopped = state.stopped ∧
      (∀ index, index ≠ localId.get.toNat →
        ((state.trySend localId parcel).1.nodes index).system = (state.nodes index).system) ∧
      (¬state.TakesDisconnect localId parcel ∧
          ((state.trySend localId parcel).1.nodes localId.get.toNat).system =
            (state.nodes localId.get.toNat).system ∨
        state.Admits localId parcel ∧ ∃ failures ticket,
          ((state.trySend localId parcel).1.nodes localId.get.toNat).system =
            (state.nodes localId.get.toNat).system ++ failures ++ [.localSendComplete ticket] ∧
          (state.TakesDisconnect localId parcel ∧ failures.length = 1 ∨
            ¬state.TakesDisconnect localId parcel ∧ failures.length = 0)) := by
  rcases state.trySend_admits localId parcel with ⟨error, hsend⟩ | ⟨hadmits, hbound, hsend⟩
  · rw [hsend]
    refine ⟨rfl, rfl, fun _ _ => rfl, .inl ⟨?_, rfl⟩⟩
    rintro ⟨hadmits, hbound, hticket, hfault⟩
    have hsubmit := hadmits.trySend hbound
    rw [hsend, submit, if_neg (not_le.mpr hticket), hfault] at hsubmit
    cases congrArg (fun step => step.2.2) hsubmit
  rw [hsend, submit]
  split
  · rename_i hlast
    exact ⟨rfl, rfl, fun _ _ => rfl, .inl ⟨fun htakes => absurd htakes.2.2.1 (not_lt.mpr hlast), rfl⟩⟩
  rename_i hticket
  dsimp only
  obtain ⟨hlimits, hstopped, hsystem, htaken⟩ := inject_frame
    { state with nextTicket := state.nextTicket + 1, faults := state.faults.tail }
    localId.get.toNat parcel.destination.get.toNat parcel parcel.payload (state.faults.headD .pass)
  generalize MemoryState.inject _ localId.get.toNat parcel.destination.get.toNat parcel
    parcel.payload (state.faults.headD .pass) = step at hlimits hstopped hsystem htaken ⊢
  obtain ⟨next, arrivals, result⟩ := step
  dsimp only at hlimits hstopped hsystem htaken
  have hothers : ∀ index, index ≠ localId.get.toNat →
      (next.nodes index).system = (state.nodes index).system := by
    intro index hne
    simpa [hne] using hsystem index
  have hmine := hsystem localId.get.toNat
  simp only [and_true] at hmine
  cases result with
  | error error =>
    have hfault : state.faults.headD .pass ≠ .disconnect := fun hfault => by cases htaken hfault
    rw [if_neg hfault, List.append_nil] at hmine
    exact ⟨hlimits, hstopped, hothers, .inl ⟨fun htakes => hfault htakes.2.2.2, hmine⟩⟩
  | ok done =>
    dsimp only
    refine ⟨hlimits, hstopped, ?_, .inr ⟨hadmits, ?_⟩⟩
    · intro index hne
      rw [MemoryState.pushSystem, setNode_of_ne hne]
      exact hothers index hne
    rw [MemoryState.pushSystem, setNode_same, hmine]
    refine ⟨_, ⟨state.nextTicket⟩, rfl, ?_⟩
    by_cases hfault : state.faults.headD .pass = .disconnect
    · rw [if_pos hfault]
      exact .inl ⟨⟨hadmits, hbound, not_le.mp hticket, hfault⟩, rfl⟩
    · rw [if_neg hfault]
      exact .inr ⟨fun htakes => hfault htakes.2.2.2, rfl⟩

/-- Every call keeps the charges, and no subtraction it makes underflows. -/
theorem Metered.apply (h : state.Metered) (op : Op) :
    (state.apply op).Metered ∧ (state.apply op).limits = state.limits := by
  cases op with
  | trySend localId parcel =>
    exact ⟨(h.trySend localId parcel).1, (state.trySend_system localId parcel).1⟩
  | progress localId maxEvents =>
    obtain ⟨hmetered, -, hlimits, -, -⟩ := h.progress localId maxEvents
    exact ⟨hmetered, hlimits⟩
  | flush localId rounds =>
    obtain ⟨hmetered, hmoves, -, -⟩ := h.flush localId rounds
    exact ⟨hmetered, hmoves.limits⟩
  | shutdown localId rounds =>
    obtain ⟨hmetered, -, hlimits, -, -, -⟩ := h.shutDown localId rounds
    exact ⟨hmetered, hlimits⟩

theorem Metered.run (h : state.Metered) (ops : List Op) :
    (ops.foldl MemoryState.apply state).Metered ∧
      (ops.foldl MemoryState.apply state).limits = state.limits := by
  induction ops generalizing state with
  | nil => exact ⟨h, rfl⟩
  | cons op rest ih =>
    obtain ⟨hnext, hlimits⟩ := h.apply op
    obtain ⟨hlast, hkept⟩ := ih hnext
    exact ⟨hlast, hkept.trans hlimits⟩

/-- A driver that has shut down stays so. -/
theorem Metered.stays (h : state.Metered) {index : Nat} (hstopped : state.stopped index = true)
    (ops : List Op) : (ops.foldl MemoryState.apply state).stopped index = true := by
  induction ops generalizing state with
  | nil => exact hstopped
  | cons op rest ih =>
    refine ih (h.apply op).1 ?_
    cases op with
    | trySend localId parcel =>
      rw [MemoryState.apply, (state.trySend_system localId parcel).2.1]
      exact hstopped
    | progress localId maxEvents =>
      rw [MemoryState.apply, (h.progress localId maxEvents).2.2.2.1]
      exact hstopped
    | flush localId rounds =>
      rw [MemoryState.apply, (h.flush localId rounds).2.1.stopped]
      exact hstopped
    | shutdown localId rounds => exact (h.shutDown localId rounds).2.2.2.2.1 index hstopped

theorem build_metered {localityCount : Nat} {runId : RunId} {limits : ProtocolLimits}
    {faults : List MemoryFault} (h : build localityCount runId limits faults = .ok state) :
    state.Metered ∧ state.limits = limits ∧
      limits.controlReservedBytesPerPeer ≤ limits.maxInflightBytesPerPeer ∧
      ∀ index, (state.nodes index).system = [] := by
  obtain ⟨done, hvalid, h⟩ := bind_ok h
  split at h
  · cases h
  cases h
  refine ⟨⟨⟨List.forall_mem_nil _, fun index _ => Node.charged_default limits index,
    fun _ => rfl⟩, ?_⟩, rfl, ?_, fun _ => rfl⟩
  · intro index hstopped
    cases hstopped
  · have hsame := fromProtocol_ok hvalid
    rw [ProtocolLimits.validate_ok hsame, ProtocolLimits.valid_iff] at hsame
    exact Nat.le_of_lt hsame.reserve

/-- No subtraction of a call underflows. -/
theorem Metered.covered (h : state.Metered)
    (hlimits : state.limits.controlReservedBytesPerPeer ≤ state.limits.maxInflightBytesPerPeer)
    (op : Op) : ∀ pair ∈ state.subtractions op, pair.2 ≤ pair.1 := by
  cases op with
  | trySend localId parcel =>
    intro pair hpair
    rw [List.mem_singleton.mp hpair]
    exact hlimits
  | progress localId maxEvents => exact (h.progress localId maxEvents).2.1
  | flush localId rounds => exact (h.flush localId rounds).2.2.1
  | shutdown localId rounds => exact (h.shutDown localId rounds).2.1

/-! ## The system queues -/

/-- Every node's events for its own driver are within the limit that `try_send` checks. -/
def SystemFits (state : MemoryState) : Prop :=
  ∀ index, (state.nodes index).system.length ≤ state.limits.maxQueuedParcelsPerPeer

/-- No send takes a `Disconnect` when there is room for only one more event. -/
def FailureFits (state : MemoryState) : Op → Prop
  | .trySend localId parcel => state.TakesDisconnect localId parcel →
    (state.nodes localId.get.toNat).system.length + 2 ≤ state.limits.maxQueuedParcelsPerPeer
  | _ => True

/-- The same of every call of a sequence, in the state it is made in. -/
def FailuresFit (state : MemoryState) : List Op → Prop
  | [] => True
  | op :: rest => state.FailureFits op ∧ (state.apply op).FailuresFit rest

/-- Queues that only got shorter still fit. -/
theorem SystemFits.of_suffix (h : state.SystemFits) (hlimits : after.limits = state.limits)
    (hsuffix : ∀ index, (after.nodes index).system <:+ (state.nodes index).system) :
    after.SystemFits := by
  intro index
  rw [hlimits]
  exact (hsuffix index).length_le.trans (h index)

theorem SystemFits.apply_iff (h : state.SystemFits) (hmetered : state.Metered) (op : Op) :
    (state.apply op).SystemFits ↔ state.FailureFits op := by
  cases op with
  | trySend localId parcel =>
    obtain ⟨hlimits, -, hothers, hmine⟩ := state.trySend_system localId parcel
    unfold SystemFits
    rw [MemoryState.apply, hlimits, MemoryState.FailureFits]
    constructor
    · intro hfits htakes
      have hafter := hfits localId.get.toNat
      rcases hmine with ⟨hnone, -⟩ | ⟨-, failures, ticket, hsystem, ⟨-, hone⟩ | ⟨hnone, -⟩⟩
      · exact absurd htakes hnone
      · simp only [hsystem, List.length_append, List.length_singleton] at hafter
        omega
      · exact absurd htakes hnone
    · intro hroom index
      by_cases hsame : index = localId.get.toNat
      · subst hsame
        rcases hmine with ⟨-, hsystem⟩ | ⟨hadmits, failures, ticket, hsystem, ⟨htakes, hone⟩ | ⟨-, hzero⟩⟩
        · rw [hsystem]
          exact h _
        · have hfits := hroom htakes
          simp only [hsystem, List.length_append, List.length_singleton]
          omega
        · have hfits := hadmits.room
          simp only [hsystem, List.length_append, List.length_singleton]
          omega
      · rw [hothers index hsame]
        exact h index
  | progress localId maxEvents =>
    obtain ⟨-, -, hlimits, -, hsuffix⟩ := hmetered.progress localId maxEvents
    exact iff_of_true (h.of_suffix hlimits hsuffix) trivial
  | flush localId rounds =>
    obtain ⟨-, hmoves, -, -⟩ := hmetered.flush localId rounds
    refine iff_of_true (h.of_suffix hmoves.limits ?_) trivial
    intro index
    rw [MemoryState.apply, hmoves.system index]
  | shutdown localId rounds =>
    obtain ⟨-, -, hlimits, hsuffix, -⟩ := hmetered.shutDown localId rounds
    exact iff_of_true (h.of_suffix hlimits hsuffix) trivial

/-- The system queues fit all along a run if and only if every failure does. -/
theorem SystemFits.run_iff (h : state.SystemFits) (hmetered : state.Metered) (ops : List Op) :
    state.FailuresFit ops ↔
      ∀ done, done <+: ops → (done.foldl MemoryState.apply state).SystemFits := by
  induction ops generalizing state with
  | nil =>
    refine iff_of_true trivial ?_
    intro done hdone
    rw [List.prefix_nil.mp hdone]
    exact h
  | cons op rest ih =>
    rw [MemoryState.FailuresFit, ← h.apply_iff hmetered op]
    constructor
    · rintro ⟨hnext, hrest⟩ done hdone
      rcases List.prefix_cons_iff.mp hdone with rfl | ⟨later, rfl, hlater⟩
      · exact h
      · exact (ih hnext (hmetered.apply op).1).mp hrest later hlater
    · intro hall
      have hnext := hall [op] (List.prefix_cons_inj op |>.mpr (List.nil_prefix))
      refine ⟨hnext, (ih hnext (hmetered.apply op).1).mpr ?_⟩
      intro later hlater
      exact hall (op :: later) ((List.prefix_cons_inj op).mpr hlater)

/-! ## The account -/

/-- The counters of a locality are zero, and no delayed parcel is from or to it. -/
structure Emptied (state : MemoryState) (localId : LocalityId) : Prop where
  bytes : (state.nodes localId.get.toNat).queuedBytes = 0
  counts : ∀ channel, (state.nodes localId.get.toNat).delayedCounts channel = 0
  delayed : ∀ item ∈ state.delayed, item.parcel.source ≠ localId ∧ item.destination ≠ localId

/-- What the counters of a network say of its queues, and what its calls do to them. -/
structure Measured (limits : ProtocolLimits) (state : MemoryState) : Prop where
  bytes : ∀ index, (state.nodes index).queuedBytes = payloads (state.nodes index).waiting +
    payloads ((state.delayed.filter fun item => item.destination.get.toNat = index).map
      Delayed.parcel)
  counts : ∀ index channel, (state.nodes index).delayedCounts channel =
    (delayedTo state.delayed index channel).length
  room : ∀ index channel, ((state.nodes index).incoming channel).length +
    (state.nodes index).delayedCounts channel ≤ limits.maxQueuedParcelsPerPeer
  budget : ∀ index, (state.nodes index).queuedBytes ≤ limits.maxInflightBytesPerPeer
  covered : ∀ op, ∀ pair ∈ state.subtractions op, pair.2 ≤ pair.1
  refused : ∀ localId parcel error, (state.trySend localId parcel).2.2 = .error error →
    (state.trySend localId parcel).1.nodes = state.nodes ∧
      (state.trySend localId parcel).1.delayed = state.delayed
  cleared : ∀ localId rounds, (state.shutDown localId rounds).2.2.2 = .ok () →
    ∀ later : List Op, Emptied (later.foldl apply (state.shutDown localId rounds).1) localId

/-- A locality that holds nothing is charged for nothing. -/
theorem Metered.emptied (h : state.Metered) {localId : LocalityId}
    (hgone : state.Gone localId.get.toNat) : state.Emptied localId := by
  have hcharged := h.carries.nodes localId.get.toNat trivial
  have hnone : ∀ channel, delayedTo state.delayed localId.get.toNat channel = [] := by
    intro channel
    refine List.filter_eq_nil_iff.mpr fun item hmem => ?_
    simp [(hgone.delayed item hmem).2]
  refine ⟨?_, ?_, ?_⟩
  · rw [hcharged.bytes]
    simp [Node.weight, hgone.incoming, hnone]
  · intro channel
    rw [hcharged.counts, hnone]
    rfl
  · intro item hmem
    obtain ⟨hsource, hdestination⟩ := hgone.delayed item hmem
    refine ⟨?_, ?_⟩
    · rintro rfl
      exact hsource rfl
    · rintro rfl
      exact hdestination rfl

/-- The delayed bytes for a node, channel by channel. -/
theorem delayedBytes_channels {delayed : List Delayed} {members : Nat}
    (h : ∀ item ∈ delayed, Deliverable members item) (index : Nat) :
    delayedBytes (delayedTo delayed index .control) + delayedBytes (delayedTo delayed index .action) +
      delayedBytes (delayedTo delayed index .bulk) =
    payloads ((delayed.filter fun item => item.destination.get.toNat = index).map
      Delayed.parcel) := by
  induction delayed with
  | nil => rfl
  | cons item rest ih =>
    have hbytes := (h item List.mem_cons_self).bytes
    have hrest := ih fun other hmem => h other (List.mem_cons_of_mem _ hmem)
    by_cases hhere : item.destination.get.toNat = index
    · cases hchannel : item.parcel.channel <;>
        simp [delayedTo_cons, hhere, hchannel, hbytes] <;> omega
    · simpa [delayedTo_cons, hhere] using hrest

theorem Metered.measured (h : state.Metered)
    (hlimits : state.limits.controlReservedBytesPerPeer ≤ state.limits.maxInflightBytesPerPeer) :
    state.Measured state.limits where
  bytes index := by
    rw [(h.carries.nodes index trivial).bytes, ← delayedBytes_channels h.carries.parked]
    simp only [Node.weight, Node.waiting, channels, List.flatMap_cons, List.flatMap_nil,
      payloads_append, payloads_nil]
    omega
  counts index := (h.carries.nodes index trivial).counts
  room index := (h.carries.nodes index trivial).room
  budget index := (h.carries.nodes index trivial).budget
  covered := h.covered hlimits
  refused localId parcel := (h.trySend localId parcel).2
  cleared := by
    intro localId rounds hclosed later
    obtain ⟨hmetered, -, -, -, -, hstops⟩ := h.shutDown localId rounds
    have hlast := (hmetered.run later).1
    exact hlast.emptied (hlast.gone _ (hmetered.stays (hstops hclosed) later))

/-- After every sequence of calls to a network the counters are exact and within the limits,
    whatever its fault script is. The system queues are within theirs if and only if no send has
    taken a `Disconnect` with room for only one more event. -/
theorem memory_accounted {localityCount : Nat} {runId : RunId} {limits : ProtocolLimits}
    {faults : List MemoryFault} {start : MemoryState}
    (hbuild : build localityCount runId limits faults = .ok start) (ops : List Op) :
    (ops.foldl apply start).Measured limits ∧
      (start.FailuresFit ops ↔
        ∀ done, done <+: ops → ∀ index, ((done.foldl apply start).nodes index).system.length ≤
          limits.maxQueuedParcelsPerPeer) := by
  obtain ⟨hmetered, hlimits, hreserve, hempty⟩ := build_metered hbuild
  have hfits : start.SystemFits := by
    intro index
    rw [hempty]
    exact Nat.zero_le _
  constructor
  · obtain ⟨hlast, hkept⟩ := hmetered.run ops
    have hsame : (ops.foldl apply start).limits = limits := hkept.trans hlimits
    rw [← hsame]
    exact hlast.measured (by rw [hsame]; exact hreserve)
  · rw [hfits.run_iff hmetered]
    refine forall_congr' fun done => imp_congr_right fun _ => ?_
    rw [SystemFits, (hmetered.run done).2, hlimits]

/-- Limits that leave room for one event. -/
def sampleCramped : ProtocolLimits := ⟨200, 8, 4, 1, 400, 100⟩

/-- Two localities. The first parcel is delayed for two ticks; one tick later it still waits. -/
theorem memory_accounted_delayed :
    ∃ start, build 2 ⟨1, by decide⟩ sampleCramped [.delay 2] = .ok start ∧
      ((([.trySend ⟨1⟩ (sampleParcel [5]), .progress ⟨0⟩ 4] : List Op).foldl apply start).nodes
        0).queuedBytes = 1 ∧
      (([.trySend ⟨1⟩ (sampleParcel [5]), .progress ⟨0⟩ 4] : List Op).foldl apply start).Measured
        sampleCramped ∧
      ∀ done, done <+: ([.trySend ⟨1⟩ (sampleParcel [5]), .progress ⟨0⟩ 4] : List Op) →
        ∀ index, ((done.foldl apply start).nodes index).system.length ≤ 1 := by
  obtain ⟨hmeasured, hsystem⟩ := @memory_accounted 2 ⟨1, by decide⟩ sampleCramped [.delay 2] _ rfl
    [.trySend ⟨1⟩ (sampleParcel [5]), .progress ⟨0⟩ 4]
  refine ⟨_, rfl, by decide +kernel, hmeasured, hsystem.mp ⟨?_, trivial, trivial⟩⟩
  rintro ⟨-, -, -, hfault⟩
  cases hfault

/-- A send that takes a `Disconnect` is let in while the system queue is empty, and leaves two
    events in a queue for one. -/
theorem system_overfull :
    ∃ start, build 2 ⟨1, by decide⟩ sampleCramped [.disconnect] = .ok start ∧
      sampleCramped.maxQueuedParcelsPerPeer <
        ((([.trySend ⟨1⟩ (sampleParcel [5])] : List Op).foldl apply start).nodes 1).system.length :=
  ⟨_, rfl, by decide +kernel⟩

end MemoryState

end Hataori.Transport
