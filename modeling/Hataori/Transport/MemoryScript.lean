import Hataori.Transport.MemoryCharges

/-!
# Delivery as scripted

The script of an in-memory network decides what becomes of an accepted parcel: how many copies
reach the destination, and when. Nothing else does: what a node has been handed and what still
waits for it are, channel by channel, the copies of the parcels that are due.
-/

namespace Hataori.Transport

open Hataori.Runtime

namespace Node

variable {node after : Node} {limits : ProtocolLimits} {delayed : List Delayed} {index : Nat}

/-- The events a node's driver takes, in the order it takes them. -/
def queue (node : Node) : List TransportEvent := node.system ++ node.waiting.map .incoming

/-- The parcels of a list that belong to a channel. -/
def onChannel (channel : Channel) (parcels : List Parcel) : List Parcel :=
  parcels.filter fun parcel => parcel.channel = channel

@[simp] theorem onChannel_nil (channel : Channel) : onChannel channel [] = [] := rfl

@[simp] theorem onChannel_append (channel : Channel) (first second : List Parcel) :
    onChannel channel (first ++ second) = onChannel channel first ++ onChannel channel second := by
  simp [onChannel]

/-- What `pop` takes is the first event of the queue. -/
theorem pop_queue : (node.pop = none ∧ node.queue = []) ∨
    ∃ event after, node.pop = some (event, after) ∧ node.queue = event :: after.queue := by
  unfold pop
  split
  · rename_i event rest hsystem
    exact .inr ⟨event, _, rfl, by simp [queue, waiting, hsystem]⟩
  rename_i hsystem
  split
  · rename_i parcel rest hcontrol
    exact .inr ⟨_, _, rfl, by simp [queue, waiting, channels, hsystem, hcontrol]⟩
  · rename_i parcel rest hcontrol haction
    exact .inr ⟨_, _, rfl, by simp [queue, waiting, channels, hsystem, hcontrol, haction]⟩
  · rename_i parcel rest hcontrol haction hbulk
    exact .inr ⟨_, _, rfl, by simp [queue, waiting, channels, hsystem, hcontrol, haction, hbulk]⟩
  · rename_i hcontrol haction hbulk
    exact .inl ⟨rfl, by simp [queue, waiting, channels, hsystem, hcontrol, haction, hbulk]⟩

@[simp] theorem release_queue (node : Node) (bytes : Nat) : (node.release bytes).queue = node.queue :=
  rfl

/-- `progress` hands out the first events of the queue, and keeps the order of each channel. -/
theorem Charged.take_queue (h : Charged limits delayed index node)
    (hsystem : incomingParcels node.system = []) (budget : Nat) :
    (node.take budget).2.1 = node.queue.take budget ∧
      (node.take budget).1.queue = node.queue.drop budget ∧
      ∀ channel, onChannel channel (incomingParcels (node.take budget).2.1) ++
        (node.take budget).1.incoming channel = node.incoming channel := by
  induction budget generalizing node with
  | zero => simp [Node.take, incomingParcels]
  | succ budget ih =>
    rw [Node.take]
    rcases @pop_queue node with ⟨hpop, hqueue⟩ | ⟨event, left, hpop, hqueue⟩
    · rw [hpop, hqueue]
      simp [incomingParcels]
    rw [hpop, hqueue]
    rcases pop_cases hpop with ⟨rest, hevents, rfl⟩ | ⟨-, channel, parcel, rest, rfl, hincoming, rfl⟩
    · have hrest : incomingParcels [event] = [] ∧ incomingParcels rest = [] := by
        rw [hevents, show event :: rest = [event] ++ rest from rfl, incomingParcels_append] at hsystem
        exact List.append_eq_nil_iff.mp hsystem
      have hsame : Charged limits delayed index { node with system := rest } :=
        h.congr (fun _ => rfl) rfl rfl rfl
      obtain ⟨hevents', hleft, horder⟩ := ih hsame hrest.2
      have hmore : ∀ channel, onChannel channel (incomingParcels (event ::
          (({ node with system := rest } : Node).take budget).2.1)) ++
          (({ node with system := rest } : Node).take budget).1.incoming channel =
            node.incoming channel := by
        intro channel
        rw [show ∀ tail, event :: tail = [event] ++ tail from fun _ => rfl, incomingParcels_append,
          hrest.1]
        exact horder channel
      have hhead := congrArg (event :: ·) hevents'
      cases event with
      | incoming parcel => cases hrest.1
      | localSendComplete ticket => exact ⟨hhead, hleft, hmore⟩
      | sendFailed ticket error => exact ⟨hhead, hleft, hmore⟩
      | peerFailed peer error => exact ⟨hhead, hleft, hmore⟩
      | shutdownComplete => exact ⟨hhead, hleft, hmore⟩
    · obtain ⟨hchannel, hbound⟩ := h.parcels channel parcel (by rw [hincoming]; exact List.mem_cons_self)
      have hlen : parcel.payloadLen = .ok parcel.payload := checked_of_lt hbound
      obtain ⟨-, hsame⟩ := h.hand hincoming
      obtain ⟨hevents, hleft, horder⟩ := ih hsame hsystem
      dsimp only
      rw [hlen]
      refine ⟨by simp [hevents], by simp [hleft], ?_⟩
      intro other
      have htail := horder other
      dsimp only
      rw [show ∀ tail, TransportEvent.incoming parcel :: tail = [.incoming parcel] ++ tail from
        fun _ => rfl, incomingParcels_append, onChannel_append, List.append_assoc, htail]
      by_cases heq : other = channel
      · subst heq
        simp [release, incomingParcels, onChannel, hchannel, hincoming]
      · simp [release, incomingParcels, onChannel, hchannel, Ne.symm heq, Function.update_of_ne heq]

end Node

namespace MemoryState

variable {state after : MemoryState} {retained items : List Delayed}

/-! ## The clock -/

@[simp] theorem setNode_tick (state : MemoryState) (index : Nat) (node : Node) :
    (state.setNode index node).tick = state.tick := rfl

@[simp] theorem setNode_delayed (state : MemoryState) (index : Nat) (node : Node) :
    (state.setNode index node).delayed = state.delayed := rfl

/-- A release moves the delayed parcels that are due behind what waits for their destinations,
    and keeps the others. -/
theorem releaseFrom_eq (hitems : ∀ item ∈ items, item.destination.get.toNat < state.members) :
    (releaseFrom retained items state).1.tick = state.tick ∧
      (releaseFrom retained items state).1.delayed =
        retained ++ items.filter (fun item => state.tick < item.releaseAt) ∧
      ∀ node channel, ((releaseFrom retained items state).1.nodes node).incoming channel =
        (state.nodes node).incoming channel ++
          (delayedTo (items.filter fun item => item.releaseAt ≤ state.tick) node channel).map
            Delayed.parcel := by
  induction items generalizing retained state with
  | nil => simp [releaseFrom]
  | cons item rest ih =>
    have hitem : memberIndex item.destination state.members = .ok item.destination.get.toNat :=
      if_pos (hitems item List.mem_cons_self)
    have hrest : ∀ other ∈ rest, other.destination.get.toNat < state.members :=
      fun other hmem => hitems other (List.mem_cons_of_mem _ hmem)
    rw [releaseFrom]
    split
    · rename_i hdue
      rw [hitem]
      obtain ⟨htick, hdelayed, hincoming⟩ := @ih (state.setNode item.destination.get.toNat
        { state.nodes item.destination.get.toNat with
          delayedCounts := Function.update
            (state.nodes item.destination.get.toNat).delayedCounts item.parcel.channel
            ((state.nodes item.destination.get.toNat).delayedCounts item.parcel.channel - 1)
          incoming := Function.update (state.nodes item.destination.get.toNat).incoming
            item.parcel.channel ((state.nodes item.destination.get.toNat).incoming
              item.parcel.channel ++ [item.parcel]) }) retained hrest
      refine ⟨htick, ?_, ?_⟩
      · rw [List.filter_cons_of_neg (by simpa using hdue)]
        exact hdelayed
      · intro node channel
        have hmore := hincoming node channel
        rw [List.filter_cons_of_pos (by simpa using hdue), delayedTo_cons]
        dsimp only
        rw [hmore]
        by_cases hnode : node = item.destination.get.toNat
        · subst hnode
          rw [setNode_same]
          by_cases hchannel : channel = item.parcel.channel
          · subst hchannel
            simp
            rfl
          · simp [Function.update_of_ne hchannel, Ne.symm hchannel]
            rfl
        · rw [setNode_of_ne hnode, if_neg (fun hsame => hnode hsame.1.symm)]
          rfl
    · rename_i hlater
      obtain ⟨htick, hdelayed, hincoming⟩ := @ih state (retained ++ [item]) hrest
      refine ⟨htick, ?_, ?_⟩
      · rw [hdelayed, List.filter_cons_of_pos (by simpa using hlater)]
        simp
      · intro node channel
        rw [hincoming, List.filter_cons_of_neg (by simpa using hlater)]

/-- The tick after this one. -/
def nextTick (state : MemoryState) : Nat := saturatingAdd state.tick 1

theorem Metered.tickAndRelease_eq (h : state.Metered) :
    state.tickAndRelease.1.tick = state.nextTick ∧
      state.tickAndRelease.1.delayed =
        state.delayed.filter (fun item => state.nextTick < item.releaseAt) ∧
      ∀ node channel, (state.tickAndRelease.1.nodes node).incoming channel =
        (state.nodes node).incoming channel ++
          (delayedTo (state.delayed.filter fun item => item.releaseAt ≤ state.nextTick) node
            channel).map Delayed.parcel := by
  obtain ⟨htick, hdelayed, hincoming⟩ := @releaseFrom_eq { state with tick := state.nextTick } []
    state.delayed fun item hmem => (h.carries.parked item hmem).member
  exact ⟨htick, hdelayed, hincoming⟩

/-! ## Accepted sends -/

/-- An accepted send, with the fault it took and the tick it was made at. -/
structure Shipment where
  parcel : Parcel
  fault : MemoryFault
  tick : Nat

namespace Shipment

/-- The copies of the parcel that the script lets through. -/
def copies (shipment : Shipment) : List Parcel :=
  match shipment.fault with
  | .pass | .delay _ | .reorder => [shipment.parcel]
  | .duplicate => [shipment.parcel, shipment.parcel]
  | .loss | .saturate | .disconnect => []

/-- The tick from which the parcel can be handed out. -/
def releaseAt (shipment : Shipment) : Nat :=
  match shipment.fault with
  | .delay progressTicks => saturatingAdd shipment.tick (max 1 progressTicks)
  | _ => shipment.tick

/-- The entry of the parcel among the delayed ones. -/
def held (shipment : Shipment) : Delayed :=
  ⟨shipment.releaseAt, shipment.parcel.destination, shipment.parcel, shipment.parcel.payload⟩

/-- The parcel is for a node, on a channel. -/
def To (shipment : Shipment) (node : Nat) (channel : Channel) : Prop :=
  shipment.parcel.destination.get.toNat = node ∧ shipment.parcel.channel = channel

instance (shipment : Shipment) (node : Nat) (channel : Channel) :
    Decidable (shipment.To node channel) := inferInstanceAs (Decidable (_ ∧ _))

end Shipment

/-- The send a call gets accepted. -/
def accepted (state : MemoryState) : Op → List Shipment
  | .trySend localId parcel =>
    match (state.trySend localId parcel).2.2 with
    | .ok _ => [⟨parcel, state.faults.headD .pass, state.tick⟩]
    | .error _ => []
  | _ => []

/-- The sends that a sequence of calls gets accepted. -/
def allAccepted (state : MemoryState) : List Op → List Shipment
  | [] => []
  | op :: rest => state.accepted op ++ (state.apply op).allAccepted rest

/-- The parcels a call hands to the driver of a node. -/
def handedTo (state : MemoryState) (node : Nat) (op : Op) : List Parcel :=
  if op.localId.get.toNat = node then incomingParcels (state.handed op) else []

/-- The parcels that a sequence of calls hands to the driver of a node. -/
def allHanded (state : MemoryState) (node : Nat) : List Op → List Parcel
  | [] => []
  | op :: rest => state.handedTo node op ++ (state.apply op).allHanded node rest

/-- The copies of some sends that are for a node, on a channel. -/
def copiesTo (sent : List Shipment) (node : Nat) (channel : Channel) : List Parcel :=
  (sent.filter fun shipment => shipment.To node channel).flatMap Shipment.copies

/-- The parcels for a node, on a channel, whose sends all took `Pass`. -/
def passedTo (sent : List Shipment) (node : Nat) (channel : Channel) : List Parcel :=
  (sent.filter fun shipment => shipment.To node channel ∧ shipment.fault = .pass).map
    Shipment.parcel

/-- What the script has made of the accepted sends: the copies of those that are `out` have been
    handed to their destinations or wait there, and the others are delayed. -/
structure Scripted (state : MemoryState) (sent out pending : List Shipment)
    (handed : Nat → List Parcel) : Prop where
  tick : state.tick < u64Bound
  split : sent.Perm (out ++ pending)
  delayed : state.delayed = pending.map Shipment.held
  slow : ∀ shipment ∈ pending, ∃ progressTicks, shipment.fault = .delay progressTicks
  due : ∀ shipment ∈ out, shipment.releaseAt ≤ state.tick
  copies : ∀ node channel, (Node.onChannel channel (handed node) ++
    (state.nodes node).incoming channel).Perm (copiesTo out node channel)
  order : ∀ node channel, (passedTo sent node channel).Sublist
    (Node.onChannel channel (handed node) ++ (state.nodes node).incoming channel)

variable {sent out pending : List Shipment} {handed : Nat → List Parcel}

@[simp] theorem copiesTo_append (first second : List Shipment) (node : Nat) (channel : Channel) :
    copiesTo (first ++ second) node channel =
      copiesTo first node channel ++ copiesTo second node channel := by
  simp [copiesTo]

@[simp] theorem passedTo_append (first second : List Shipment) (node : Nat) (channel : Channel) :
    passedTo (first ++ second) node channel =
      passedTo first node channel ++ passedTo second node channel := by
  simp [passedTo]

/-- The queues, with what was already handed out of them, did not change. -/
theorem Scripted.congr (h : state.Scripted sent out pending handed) {given : Nat → List Parcel}
    (htick : after.tick = state.tick) (hdelayed : after.delayed = state.delayed)
    (hqueues : ∀ node channel, Node.onChannel channel (given node) ++
      (after.nodes node).incoming channel =
        Node.onChannel channel (handed node) ++ (state.nodes node).incoming channel) :
    after.Scripted sent out pending given where
  tick := htick ▸ h.tick
  split := h.split
  delayed := hdelayed.trans h.delayed
  slow := h.slow
  due := htick ▸ h.due
  copies node channel := by
    rw [hqueues]
    exact h.copies node channel
  order node channel := by
    rw [hqueues]
    exact h.order node channel

/-- A parcel that is not delayed joins its queue, as often as the script has it. -/
theorem Scripted.accept (h : state.Scripted sent out pending handed) {shipment : Shipment}
    (hready : shipment.releaseAt ≤ state.tick)
    (htick : after.tick = state.tick) (hdelayed : after.delayed = state.delayed)
    (hothers : ∀ node channel, ¬shipment.To node channel →
      (after.nodes node).incoming channel = (state.nodes node).incoming channel)
    (hcopies : ∀ node channel, shipment.To node channel →
      ((after.nodes node).incoming channel).Perm
        ((state.nodes node).incoming channel ++ shipment.copies))
    (horder : ∀ node channel, shipment.To node channel →
      ((state.nodes node).incoming channel ++
        if shipment.fault = .pass then [shipment.parcel] else []).Sublist
          ((after.nodes node).incoming channel)) :
    after.Scripted (sent ++ [shipment]) (out ++ [shipment]) pending handed where
  tick := htick ▸ h.tick
  split := by
    refine (h.split.append_right _).trans ?_
    rw [List.append_assoc, List.append_assoc]
    exact List.perm_append_comm.append_left _
  delayed := hdelayed.trans h.delayed
  slow := h.slow
  due := by
    intro other hmem
    rw [htick]
    rcases List.mem_append.mp hmem with hold | hnew
    · exact h.due other hold
    · rw [List.mem_singleton.mp hnew]
      exact hready
  copies node channel := by
    rw [copiesTo_append]
    by_cases hto : shipment.To node channel
    · have hone : copiesTo [shipment] node channel = shipment.copies := by
        simp [copiesTo, hto]
      rw [hone]
      calc (Node.onChannel channel (handed node) ++ (after.nodes node).incoming channel).Perm
            (Node.onChannel channel (handed node) ++
              ((state.nodes node).incoming channel ++ shipment.copies)) :=
          (hcopies node channel hto).append_left _
        _ = Node.onChannel channel (handed node) ++ (state.nodes node).incoming channel ++
              shipment.copies := (List.append_assoc _ _ _).symm
        List.Perm _ (copiesTo out node channel ++ shipment.copies) :=
          (h.copies node channel).append_right _
    · have hnone : copiesTo [shipment] node channel = [] := by
        simp [copiesTo, hto]
      rw [hnone, List.append_nil, hothers node channel hto]
      exact h.copies node channel
  order node channel := by
    rw [passedTo_append]
    by_cases hto : shipment.To node channel
    · have hone : passedTo [shipment] node channel =
          if shipment.fault = .pass then [shipment.parcel] else [] := by
        by_cases hpass : shipment.fault = .pass <;> simp [passedTo, hto, hpass]
      rw [hone]
      refine ((h.order node channel).append_right _).trans ?_
      rw [List.append_assoc]
      exact (horder node channel hto).append_left _
    · have hnone : passedTo [shipment] node channel = [] := by
        simp [passedTo, hto]
      rw [hnone, List.append_nil, hothers node channel hto]
      exact h.order node channel

/-- A parcel is delayed. -/
theorem Scripted.park (h : state.Scripted sent out pending handed) {shipment : Shipment}
    {progressTicks : Nat} (hslow : shipment.fault = .delay progressTicks)
    (htick : after.tick = state.tick) (hdelayed : after.delayed = state.delayed ++ [shipment.held])
    (hincoming : ∀ node channel,
      (after.nodes node).incoming channel = (state.nodes node).incoming channel) :
    after.Scripted (sent ++ [shipment]) out (pending ++ [shipment]) handed where
  tick := htick ▸ h.tick
  split := by
    rw [← List.append_assoc]
    exact h.split.append_right _
  delayed := by
    rw [hdelayed, h.delayed]
    simp
  slow := by
    intro other hmem
    rcases List.mem_append.mp hmem with hold | hnew
    · exact h.slow other hold
    · rw [List.mem_singleton.mp hnew]
      exact ⟨progressTicks, hslow⟩
  due := htick ▸ h.due
  copies node channel := by
    rw [hincoming]
    exact h.copies node channel
  order node channel := by
    have hnone : passedTo [shipment] node channel = [] := by
      simp [passedTo, hslow]
    rw [passedTo_append, hnone, List.append_nil, hincoming]
    exact h.order node channel

/-- Delayed parcels arrive once each. -/
theorem delayedTo_held {shipments : List Shipment}
    (h : ∀ shipment ∈ shipments, ∃ progressTicks, shipment.fault = .delay progressTicks)
    (node : Nat) (channel : Channel) :
    (delayedTo (shipments.map Shipment.held) node channel).map Delayed.parcel =
      copiesTo shipments node channel := by
  induction shipments with
  | nil => rfl
  | cons shipment rest ih =>
    obtain ⟨progressTicks, hslow⟩ := h shipment List.mem_cons_self
    have hrest := ih fun other hmem => h other (List.mem_cons_of_mem _ hmem)
    rw [List.map_cons, delayedTo_cons, show shipment :: rest = [shipment] ++ rest from rfl,
      copiesTo_append, ← hrest]
    change List.map Delayed.parcel (if shipment.To node channel then _ else _) = _
    by_cases hto : shipment.To node channel
    · rw [if_pos hto]
      simp [copiesTo, hto, Shipment.copies, hslow, Shipment.held]
    · rw [if_neg hto]
      simp [copiesTo, hto]

theorem nextTick_bound (state : MemoryState) : state.nextTick < u64Bound := by
  unfold nextTick saturatingAdd u64Bound
  omega

theorem tick_le_nextTick (h : state.tick < u64Bound) : state.tick ≤ state.nextTick := by
  unfold nextTick saturatingAdd
  omega

/-- Every delayed parcel has a tick that the clock reaches. -/
theorem Scripted.late (h : state.Scripted sent out pending handed) :
    ∀ item ∈ state.delayed, item.releaseAt < u64Bound := by
  intro item hmem
  rw [h.delayed] at hmem
  obtain ⟨shipment, hpending, rfl⟩ := List.mem_map.mp hmem
  obtain ⟨progressTicks, hslow⟩ := h.slow shipment hpending
  rw [Shipment.held, Shipment.releaseAt, hslow]
  dsimp only
  unfold saturatingAdd u64Bound
  omega

/-- A tick lets out the delayed parcels that are due. -/
theorem Scripted.release (h : state.Scripted sent out pending handed) (hmetered : state.Metered) :
    state.tickAndRelease.1.Scripted sent
      (out ++ pending.filter fun shipment => shipment.releaseAt ≤ state.nextTick)
      (pending.filter fun shipment => state.nextTick < shipment.releaseAt) handed := by
  obtain ⟨htick, hdelayed, hincoming⟩ := hmetered.tickAndRelease_eq
  have hdue : ∀ shipment ∈ pending.filter (fun shipment => shipment.releaseAt ≤ state.nextTick),
      ∃ progressTicks, shipment.fault = .delay progressTicks :=
    fun shipment hmem => h.slow shipment (List.mem_of_mem_filter hmem)
  have harrived : ∀ node channel, (state.tickAndRelease.1.nodes node).incoming channel =
      (state.nodes node).incoming channel ++ copiesTo
        (pending.filter fun shipment => shipment.releaseAt ≤ state.nextTick) node channel := by
    intro node channel
    rw [hincoming, h.delayed, List.filter_map, ← delayedTo_held hdue]
    rfl
  refine ⟨by rw [htick]; exact state.nextTick_bound, ?_, ?_, ?_, ?_, ?_, ?_⟩
  · refine h.split.trans ?_
    rw [List.append_assoc]
    refine List.Perm.append_left _ ?_
    have hrest : pending.filter (fun shipment => decide (state.nextTick < shipment.releaseAt)) =
        pending.filter fun shipment => !decide (shipment.releaseAt ≤ state.nextTick) := by
      refine List.filter_congr ?_
      intro shipment _
      rw [← decide_not, decide_eq_decide]
      exact not_le.symm
    rw [hrest]
    exact (List.filter_append_perm _ _).symm
  · rw [hdelayed, h.delayed, List.filter_map]
    rfl
  · intro shipment hmem
    exact h.slow shipment (List.mem_of_mem_filter hmem)
  · intro shipment hmem
    rw [htick]
    rcases List.mem_append.mp hmem with hold | hnew
    · exact (h.due shipment hold).trans (tick_le_nextTick h.tick)
    · simpa using (List.mem_filter.mp hnew).2
  · intro node channel
    rw [harrived, copiesTo_append, ← List.append_assoc]
    exact (h.copies node channel).append_right _
  · intro node channel
    rw [harrived, ← List.append_assoc]
    exact (h.order node channel).trans (List.sublist_append_left _ _)

/-! ## Calls -/

@[simp] theorem pushSystem_incoming (state : MemoryState) (me : Nat) (event : TransportEvent)
    (node : Nat) (channel : Channel) :
    ((state.pushSystem me event).nodes node).incoming channel =
      (state.nodes node).incoming channel := by
  by_cases hsame : node = me
  · subst hsame
    simp [MemoryState.pushSystem]
  · simp [MemoryState.pushSystem, setNode_of_ne hsame]

@[simp] theorem enqueue_here (state : MemoryState) (peer : Nat) (parcel : Parcel) (bytes : Nat)
    (front : Bool) : ((state.enqueue peer parcel bytes front).nodes peer).incoming parcel.channel =
      if front then parcel :: (state.nodes peer).incoming parcel.channel
      else (state.nodes peer).incoming parcel.channel ++ [parcel] := by
  simp [MemoryState.enqueue]

theorem enqueue_elsewhere {peer node : Nat} {parcel : Parcel} {channel : Channel}
    (h : ¬(peer = node ∧ parcel.channel = channel)) (state : MemoryState) (bytes : Nat)
    (front : Bool) : ((state.enqueue peer parcel bytes front).nodes node).incoming channel =
      (state.nodes node).incoming channel := by
  by_cases hnode : node = peer
  · subst hnode
    have hchannel : channel ≠ parcel.channel := fun hsame => h ⟨rfl, hsame.symm⟩
    simp [MemoryState.enqueue, Function.update_of_ne hchannel]
  · simp [MemoryState.enqueue, setNode_of_ne hnode]

/-- What a fault does to an accepted parcel is what the script says. -/
theorem Scripted.inject (h : state.Scripted sent out pending handed) (me : Nat) (parcel : Parcel)
    (fault : MemoryFault)
    (hok : (state.inject me parcel.destination.get.toNat parcel parcel.payload fault).2.2 = .ok ()) :
    ∃ out pending,
      (state.inject me parcel.destination.get.toNat parcel parcel.payload fault).1.Scripted
        (sent ++ [⟨parcel, fault, state.tick⟩]) out pending handed := by
  cases fault with
  | saturate => cases hok
  | disconnect =>
    refine ⟨_, _, h.accept (Nat.le_refl _) rfl rfl ?_ ?_ ?_⟩
    · simp [MemoryState.inject]
    · simp [MemoryState.inject, Shipment.copies]
    · simp [MemoryState.inject]
  | loss =>
    refine ⟨_, _, h.accept (Nat.le_refl _) rfl rfl ?_ ?_ ?_⟩
    · simp [MemoryState.inject]
    · simp [MemoryState.inject, Shipment.copies]
    · simp [MemoryState.inject]
  | pass =>
    rw [MemoryState.inject] at hok ⊢
    split at hok
    · cases hok
    refine ⟨_, _, h.accept (Nat.le_refl _) rfl rfl ?_ ?_ ?_⟩
    · intro node channel hto
      exact enqueue_elsewhere hto _ _ _
    · rintro node channel ⟨rfl, rfl⟩
      simp [Shipment.copies]
    · rintro node channel ⟨rfl, rfl⟩
      simp
  | reorder =>
    rw [MemoryState.inject] at hok ⊢
    split at hok
    · cases hok
    refine ⟨_, _, h.accept (Nat.le_refl _) rfl rfl ?_ ?_ ?_⟩
    · intro node channel hto
      exact enqueue_elsewhere hto _ _ _
    · rintro node channel ⟨rfl, rfl⟩
      rw [enqueue_here]
      exact (List.perm_append_singleton _ _).symm
    · rintro node channel ⟨rfl, rfl⟩
      simp
  | duplicate =>
    rw [MemoryState.inject] at hok ⊢
    split at hok
    · cases hok
    refine ⟨_, _, h.accept (Nat.le_refl _) rfl rfl ?_ ?_ ?_⟩
    · intro node channel hto
      exact (enqueue_elsewhere hto _ _ _).trans (enqueue_elsewhere hto _ _ _)
    · rintro node channel ⟨rfl, rfl⟩
      simp [Shipment.copies]
    · rintro node channel ⟨rfl, rfl⟩
      simp
  | delay progressTicks =>
    rw [MemoryState.inject] at hok ⊢
    split at hok
    · cases hok
    refine ⟨_, _, h.park rfl rfl rfl ?_⟩
    intro node channel
    by_cases hsame : node = parcel.destination.get.toNat
    · subst hsame
      simp
    · simp [setNode_of_ne hsame]

theorem inject_refused {me peer bytes : Nat} {parcel : Parcel} {fault : MemoryFault}
    {error : TransportError} (h : (state.inject me peer parcel bytes fault).2.2 = .error error) :
    (state.inject me peer parcel bytes fault).1 = state := by
  cases fault with
  | saturate => rfl
  | loss => rfl
  | disconnect => cases h
  | pass | reorder | duplicate | delay progressTicks =>
    rw [MemoryState.inject] at h ⊢
    cases hreserve : state.reserve _ _ _ _ with
    | error error => rfl
    | ok done =>
      rw [hreserve] at h
      cases h

theorem Scripted.trySend (h : state.Scripted sent out pending handed) (localId : LocalityId)
    (parcel : Parcel) :
    ∃ out pending, (state.trySend localId parcel).1.Scripted
      (sent ++ state.accepted (.trySend localId parcel)) out pending handed := by
  rw [MemoryState.accepted]
  rcases state.trySend_admits localId parcel with ⟨error, hsend⟩ | ⟨-, -, hsend⟩
  · rw [hsend]
    exact ⟨out, pending, by simpa using h⟩
  rw [hsend, submit]
  split
  · exact ⟨out, pending, by simpa using h⟩
  have hsame : Scripted { state with nextTicket := state.nextTicket + 1, faults := state.faults.tail }
      sent out pending handed := h.congr rfl rfl fun _ _ => rfl
  have hinject := hsame.inject localId.get.toNat parcel (state.faults.headD .pass)
  have hrefused := @inject_refused { state with
    nextTicket := state.nextTicket + 1, faults := state.faults.tail } localId.get.toNat
    parcel.destination.get.toNat parcel.payload parcel (state.faults.headD .pass)
  dsimp only at hinject hrefused ⊢
  generalize MemoryState.inject _ localId.get.toNat parcel.destination.get.toNat parcel
    parcel.payload (state.faults.headD .pass) = step at hinject hrefused ⊢
  obtain ⟨next, arrivals, result⟩ := step
  cases result with
  | error error =>
    obtain rfl : next = _ := hrefused rfl
    exact ⟨out, pending, by simpa using hsame⟩
  | ok done =>
    obtain ⟨out, pending, hnext⟩ := hinject rfl
    exact ⟨out, pending, hnext.congr rfl rfl (by simp)⟩

theorem Scripted.flush (h : state.Scripted sent out pending handed) (hmetered : state.Metered)
    (localId : LocalityId) (rounds : Nat) :
    ∃ out pending, (flush localId rounds state).1.Scripted sent out pending handed := by
  induction rounds generalizing state out pending with
  | zero =>
    obtain ⟨hok, -, -, -⟩ := hmetered.tickAndRelease
    have hreleased := h.release hmetered
    rw [MemoryState.flush]
    generalize state.tickAndRelease = step at hok hreleased ⊢
    obtain ⟨next, arrivals, result⟩ := step
    cases hok
    dsimp only
    split
    · exact ⟨_, _, hreleased⟩
    · exact ⟨_, _, hreleased⟩
  | succ rounds ih =>
    obtain ⟨hok, hnext, -, -⟩ := hmetered.tickAndRelease
    have hreleased := h.release hmetered
    rw [MemoryState.flush]
    generalize state.tickAndRelease = step at hok hnext hreleased ⊢
    obtain ⟨next, arrivals, result⟩ := step
    cases hok
    dsimp only
    split
    · exact ih hreleased hnext
    · exact ⟨_, _, hreleased⟩

theorem Scripted.progress (h : state.Scripted sent out pending handed) (hmetered : state.Metered)
    (localId : LocalityId) (maxEvents : Nat) :
    ∃ out pending, (state.progress localId maxEvents).1.Scripted sent out pending
      fun node => handed node ++ state.handedTo node (.progress localId maxEvents) := by
  simp only [MemoryState.handedTo, MemoryState.handed, Op.localId]
  rw [MemoryState.progress]
  split
  · exact ⟨out, pending, by simpa [incomingParcels] using h⟩
  obtain ⟨hok, hnext, -, -⟩ := hmetered.tickAndRelease
  have hreleased := h.release hmetered
  generalize state.tickAndRelease = step at hok hnext hreleased ⊢
  obtain ⟨next, arrivals, result⟩ := step
  cases hok
  dsimp only at hnext hreleased ⊢
  split
  · exact ⟨_, _, by simpa [incomingParcels] using hreleased⟩
  rename_i me hme
  obtain ⟨rfl, -⟩ := memberIndex_ok hme
  have hcharged := hnext.carries.nodes localId.get.toNat trivial
  have hsystem := hnext.carries.system localId.get.toNat
  obtain ⟨-, htaken, -, -, -⟩ := hcharged.take hsystem maxEvents
  obtain ⟨-, -, horder⟩ := hcharged.take_queue hsystem maxEvents
  generalize (next.nodes localId.get.toNat).take maxEvents = step at htaken horder ⊢
  obtain ⟨node, events, result⟩ := step
  cases htaken
  dsimp only at horder ⊢
  refine ⟨_, _, hreleased.congr rfl rfl ?_⟩
  intro other channel
  by_cases hsame : other = localId.get.toNat
  · subst hsame
    rw [setNode_same, if_pos rfl, Node.onChannel_append, List.append_assoc, horder]
  · rw [setNode_of_ne hsame, if_neg (Ne.symm hsame), List.append_nil]

/-- Every call but a shutdown keeps to the script. -/
theorem Scripted.apply (h : state.Scripted sent out pending handed) (hmetered : state.Metered)
    {op : Op} (hopen : ∀ localId rounds, op ≠ .shutdown localId rounds) :
    ∃ out pending, (state.apply op).Scripted (sent ++ state.accepted op) out pending
      fun node => handed node ++ state.handedTo node op := by
  have hsilent : ∀ {node : Nat}, state.handed op = [] → state.handedTo node op = [] := by
    intro node hnone
    rw [MemoryState.handedTo, hnone]
    exact ite_self _
  cases op with
  | trySend localId parcel =>
    obtain ⟨out, pending, hnext⟩ := h.trySend localId parcel
    refine ⟨out, pending, hnext.congr rfl rfl ?_⟩
    intro node channel
    rw [hsilent rfl, List.append_nil]
    rfl
  | progress localId maxEvents =>
    rw [show state.accepted (.progress localId maxEvents) = [] from rfl, List.append_nil]
    exact h.progress hmetered localId maxEvents
  | flush localId rounds =>
    obtain ⟨out, pending, hnext⟩ := h.flush hmetered localId rounds
    rw [show state.accepted (.flush localId rounds) = [] from rfl, List.append_nil]
    refine ⟨out, pending, hnext.congr rfl rfl ?_⟩
    intro node channel
    rw [hsilent rfl, List.append_nil]
    rfl
  | shutdown localId rounds => exact absurd rfl (hopen localId rounds)

theorem Scripted.run (h : state.Scripted sent out pending handed) (hmetered : state.Metered)
    {ops : List Op} (hopen : ∀ localId rounds, Op.shutdown localId rounds ∉ ops) :
    ∃ out pending, (ops.foldl MemoryState.apply state).Scripted (sent ++ state.allAccepted ops) out
      pending fun node => handed node ++ state.allHanded node ops := by
  induction ops generalizing state sent out pending handed with
  | nil => exact ⟨out, pending, by simpa [allAccepted, allHanded] using h⟩
  | cons op rest ih =>
    obtain ⟨out, pending, hnext⟩ := h.apply hmetered fun localId rounds hsame =>
      hopen localId rounds (hsame ▸ List.mem_cons_self)
    obtain ⟨out, pending, hlast⟩ := ih hnext (hmetered.apply op).1 fun localId rounds hmem =>
      hopen localId rounds (List.mem_cons_of_mem _ hmem)
    refine ⟨out, pending, ?_⟩
    simp only [allAccepted, allHanded, ← List.append_assoc]
    exact hlast

theorem build_scripted {localityCount : Nat} {runId : RunId} {limits : ProtocolLimits}
    {faults : List MemoryFault} (h : build localityCount runId limits faults = .ok state) :
    state.Scripted [] [] [] (fun _ => []) ∧ state.members = localityCount ∧
      ∀ index, state.stopped index = false := by
  obtain ⟨done, -, h⟩ := bind_ok h
  split at h
  · cases h
  cases h
  refine ⟨⟨Nat.two_pow_pos 64, .refl _, rfl, List.forall_mem_nil _, List.forall_mem_nil _, ?_, ?_⟩, rfl,
    fun _ => rfl⟩
  · intro node channel
    exact .refl _
  · intro node channel
    exact .refl _

/-! ## Order -/

/-- If all parcels for a node on a channel took `Pass`, they are handed out and wait in the order
    they were sent in. -/
theorem Scripted.in_turn (h : state.Scripted sent out pending handed) {node : Nat} {channel : Channel}
    (hpass : ∀ shipment ∈ sent, shipment.To node channel → shipment.fault = .pass) :
    Node.onChannel channel (handed node) ++ (state.nodes node).incoming channel =
      passedTo sent node channel := by
  have hall : ∀ shipments : List Shipment, (∀ shipment ∈ shipments, shipment ∈ sent) →
      copiesTo shipments node channel = passedTo shipments node channel := by
    intro shipments hsub
    induction shipments with
    | nil => rfl
    | cons shipment rest ih =>
      have hrest := ih fun other hmem => hsub other (List.mem_cons_of_mem _ hmem)
      rw [show shipment :: rest = [shipment] ++ rest from rfl, copiesTo_append, passedTo_append, hrest]
      by_cases hto : shipment.To node channel
      · have hfault := hpass shipment (hsub shipment List.mem_cons_self) hto
        simp [copiesTo, passedTo, hto, hfault, Shipment.copies]
      · simp [copiesTo, passedTo, hto]
  have hnone : copiesTo pending node channel = [] := by
    have hempty : pending.filter (fun shipment => shipment.To node channel) = [] := by
      refine List.filter_eq_nil_iff.mpr fun shipment hmem => ?_
      intro hto
      obtain ⟨progressTicks, hslow⟩ := h.slow shipment hmem
      have hfault := hpass shipment (h.split.mem_iff.mpr (List.mem_append_right _ hmem))
        (of_decide_eq_true hto)
      rw [hslow] at hfault
      cases hfault
    rw [copiesTo, hempty]
    rfl
  have hsplit : (copiesTo sent node channel).Perm (copiesTo out node channel) := by
    have hboth := (h.split.filter fun shipment => shipment.To node channel).flatMap_right
      Shipment.copies
    change (copiesTo sent node channel).Perm (copiesTo (out ++ pending) node channel) at hboth
    rwa [copiesTo_append, hnone, List.append_nil] at hboth
  have hlength : (passedTo sent node channel).length =
      (Node.onChannel channel (handed node) ++ (state.nodes node).incoming channel).length := by
    rw [← hall sent fun _ hmem => hmem]
    exact (hsplit.trans (h.copies node channel).symm).length_eq
  exact ((h.order node channel).eq_of_length hlength).symm

/-- When nothing is delayed and nothing waits for a node, it has been handed all copies. -/
theorem Scripted.complete (h : state.Scripted sent out pending handed) (hdelayed : state.delayed = [])
    {node : Nat} (hqueue : (state.nodes node).queue = []) (channel : Channel) :
    (Node.onChannel channel (handed node)).Perm (copiesTo sent node channel) := by
  have hnone : pending = [] := by
    rw [h.delayed] at hdelayed
    exact List.map_eq_nil_iff.mp hdelayed
  have hincoming : (state.nodes node).incoming channel = [] := by
    obtain ⟨-, hwaiting⟩ := List.append_eq_nil_iff.mp hqueue
    exact List.flatMap_eq_nil_iff.mp (List.map_eq_nil_iff.mp hwaiting) channel
      (SubmissionState.mem_channels channel)
  have hsplit := h.split
  rw [hnone, List.append_nil] at hsplit
  have hcopies := h.copies node channel
  rw [hincoming, List.append_nil] at hcopies
  exact hcopies.trans ((hsplit.filter _).flatMap_right Shipment.copies).symm

/-! ## What `progress` hands out -/

/-- A call of `progress` by a member that is running. -/
theorem Metered.progress_eq (h : state.Metered) {localId : LocalityId}
    (hrunning : state.stopped localId.get.toNat = false)
    (hmember : localId.get.toNat < state.members) (maxEvents : Nat) :
    (state.progress localId maxEvents).1 = state.tickAndRelease.1.setNode localId.get.toNat
        ((state.tickAndRelease.1.nodes localId.get.toNat).take maxEvents).1 ∧
      (state.progress localId maxEvents).2.2.1 =
        (state.tickAndRelease.1.nodes localId.get.toNat).queue.take maxEvents := by
  obtain ⟨hok, hnext, hmoves, -⟩ := h.tickAndRelease
  rw [MemoryState.progress, if_neg (by simp [hrunning])]
  generalize state.tickAndRelease = step at hok hnext hmoves ⊢
  obtain ⟨next, arrivals, result⟩ := step
  cases hok
  have hme : memberIndex localId next.members = .ok localId.get.toNat := by
    rw [hmoves.members]
    exact if_pos hmember
  have hcharged := hnext.carries.nodes localId.get.toNat trivial
  have hsystem := hnext.carries.system localId.get.toNat
  obtain ⟨-, htaken, -, -, -⟩ := hcharged.take hsystem maxEvents
  obtain ⟨hevents, -, -⟩ := hcharged.take_queue hsystem maxEvents
  dsimp only
  rw [hme, ← hevents]
  dsimp only
  generalize (next.nodes localId.get.toNat).take maxEvents = step at htaken ⊢
  obtain ⟨node, events, result⟩ := step
  cases htaken
  exact ⟨rfl, rfl⟩

/-- The calls of `progress` that some drivers make, with their limits. -/
def polls (calls : List (LocalityId × Nat)) : List Op :=
  calls.map fun call => .progress call.1 call.2

/-- How many events the calls of one driver ask for. -/
def asked (node : Nat) (calls : List (LocalityId × Nat)) : Nat :=
  ((calls.filter fun call => call.1.get.toNat = node).map Prod.snd).sum

/-- The events that wait for a node, with all that is delayed. -/
def backlog (state : MemoryState) (node : Nat) : Nat :=
  (state.nodes node).queue.length + state.delayed.length

theorem queue_length (node : Node) : node.queue.length = node.system.length +
    (node.incoming .control).length + (node.incoming .action).length +
      (node.incoming .bulk).length := by
  simp [Node.queue, Node.waiting, channels]
  omega

theorem delayedTo_length (delayed : List Delayed) (node : Nat) :
    (delayedTo delayed node .control).length + (delayedTo delayed node .action).length +
      (delayedTo delayed node .bulk).length ≤ delayed.length := by
  induction delayed with
  | nil => simp
  | cons item rest ih =>
    by_cases hnode : item.destination.get.toNat = node
    · cases hchannel : item.parcel.channel <;> simp [delayedTo_cons, hnode, hchannel] <;> omega
    · simp [delayedTo_cons, hnode]
      omega

/-- One call of `progress`: the tick moves on, what is due arrives, and the driver takes its
    share of the queue. -/
theorem Metered.poll (h : state.Metered) {localId : LocalityId}
    (hrunning : state.stopped localId.get.toNat = false)
    (hmember : localId.get.toNat < state.members) (maxEvents node : Nat) :
    ((state.progress localId maxEvents).1.members = state.members ∧
      (state.progress localId maxEvents).1.tick = state.nextTick ∧
      (state.progress localId maxEvents).1.delayed =
        state.delayed.filter fun item => state.nextTick < item.releaseAt) ∧
      (state.progress localId maxEvents).1.backlog node ≤ state.backlog node ∧
      (state.delayed = [] → ((state.progress localId maxEvents).1.nodes node).queue.length =
        (state.nodes node).queue.length - asked node [(localId, maxEvents)]) := by
  obtain ⟨htick, hdelayed, hincoming⟩ := h.tickAndRelease_eq
  obtain ⟨-, hnext, hmoves, -⟩ := h.tickAndRelease
  obtain ⟨-, hleft, -⟩ := (hnext.carries.nodes localId.get.toNat trivial).take_queue
    (hnext.carries.system localId.get.toNat) maxEvents
  obtain ⟨hprogress, -⟩ := h.progress_eq hrunning hmember maxEvents
  rw [hprogress]
  have hreleased : (state.tickAndRelease.1.nodes node).queue.length =
      (state.nodes node).queue.length +
        (delayedTo (state.delayed.filter fun item => item.releaseAt ≤ state.nextTick) node
          .control).length +
        (delayedTo (state.delayed.filter fun item => item.releaseAt ≤ state.nextTick) node
          .action).length +
        (delayedTo (state.delayed.filter fun item => item.releaseAt ≤ state.nextTick) node
          .bulk).length := by
    rw [queue_length, queue_length, hincoming, hincoming, hincoming, hmoves.system]
    simp only [List.length_append, List.length_map]
    omega
  have hqueue : ((state.tickAndRelease.1.setNode localId.get.toNat
      ((state.tickAndRelease.1.nodes localId.get.toNat).take maxEvents).1).nodes node).queue.length =
        (state.tickAndRelease.1.nodes node).queue.length - asked node [(localId, maxEvents)] := by
    by_cases hsame : node = localId.get.toNat
    · subst hsame
      rw [setNode_same, hleft]
      simp [asked]
    · rw [setNode_of_ne hsame]
      simp [asked, Ne.symm hsame]
  refine ⟨⟨hmoves.members, htick, hdelayed⟩, ?_, ?_⟩
  · have hparts := delayedTo_length
      (state.delayed.filter fun item => item.releaseAt ≤ state.nextTick) node
    have hsplit : state.delayed.length =
        (state.delayed.filter fun item => item.releaseAt ≤ state.nextTick).length +
          (state.delayed.filter fun item => state.nextTick < item.releaseAt).length := by
      rw [List.length_eq_length_filter_add fun item : Delayed => decide (item.releaseAt ≤ state.nextTick)]
      congr 2
      refine List.filter_congr ?_
      intro item _
      rw [← decide_not, decide_eq_decide]
      exact not_le
    unfold backlog
    rw [hqueue, setNode_delayed, hdelayed]
    omega
  · intro hnone
    rw [hqueue, hreleased, hnone]
    simp

theorem asked_cons (node : Nat) (call : LocalityId × Nat) (calls : List (LocalityId × Nat)) :
    asked node (call :: calls) = asked node [call] + asked node calls := by
  by_cases hnode : call.1.get.toNat = node <;> simp [asked, hnode]

theorem inject_members (state : MemoryState) (me peer : Nat) (parcel : Parcel) (bytes : Nat)
    (fault : MemoryFault) :
    (state.inject me peer parcel bytes fault).1.members = state.members := by
  cases fault with
  | saturate | loss | disconnect => rfl
  | pass | reorder | duplicate | delay progressTicks =>
    rw [MemoryState.inject]
    split <;> rfl

/-- Only a shutdown stops a driver, and nothing changes the members. -/
theorem Metered.apply_running (h : state.Metered) (hrunning : ∀ index, state.stopped index = false)
    {op : Op} (hopen : ∀ localId rounds, op ≠ .shutdown localId rounds) :
    (state.apply op).members = state.members ∧ ∀ index, (state.apply op).stopped index = false := by
  cases op with
  | trySend localId parcel =>
    refine ⟨?_, ?_⟩
    · rw [MemoryState.apply]
      rcases state.trySend_admits localId parcel with ⟨error, hsend⟩ | ⟨-, -, hsend⟩
      · rw [hsend]
      rw [hsend, submit]
      split
      · rfl
      have hsame := inject_members { state with
        nextTicket := state.nextTicket + 1, faults := state.faults.tail } localId.get.toNat
        parcel.destination.get.toNat parcel parcel.payload (state.faults.headD .pass)
      dsimp only at hsame ⊢
      generalize MemoryState.inject _ localId.get.toNat parcel.destination.get.toNat parcel
        parcel.payload (state.faults.headD .pass) = step at hsame ⊢
      obtain ⟨next, arrivals, result⟩ := step
      cases result with
      | error error => exact hsame
      | ok done => exact hsame
    · rw [MemoryState.apply, (state.trySend_system localId parcel).2.1]
      exact hrunning
  | progress localId maxEvents =>
    refine ⟨?_, ?_⟩
    · obtain ⟨hok, -, hmoves, -⟩ := h.tickAndRelease
      rw [MemoryState.apply, MemoryState.progress]
      split
      · rfl
      generalize state.tickAndRelease = step at hok hmoves ⊢
      obtain ⟨next, arrivals, result⟩ := step
      cases hok
      dsimp only
      split
      · exact hmoves.members
      · split
        · exact hmoves.members
        · exact hmoves.members
    · rw [MemoryState.apply, (h.progress localId maxEvents).2.2.2.1]
      exact hrunning
  | flush localId rounds =>
    obtain ⟨-, hmoves, -, -⟩ := h.flush localId rounds
    refine ⟨hmoves.members, ?_⟩
    rw [MemoryState.apply, hmoves.stopped]
    exact hrunning
  | shutdown localId rounds => exact absurd rfl (hopen localId rounds)

theorem Metered.run_running (h : state.Metered) (hrunning : ∀ index, state.stopped index = false)
    {ops : List Op} (hopen : ∀ localId rounds, Op.shutdown localId rounds ∉ ops) :
    (ops.foldl MemoryState.apply state).members = state.members ∧
      ∀ index, (ops.foldl MemoryState.apply state).stopped index = false := by
  induction ops generalizing state with
  | nil => exact ⟨rfl, hrunning⟩
  | cons op rest ih =>
    obtain ⟨hsame, hnext⟩ := h.apply_running hrunning fun localId rounds heq =>
      hopen localId rounds (heq ▸ List.mem_cons_self)
    obtain ⟨hkept, hlast⟩ := ih (h.apply op).1 hnext fun localId rounds hmem =>
      hopen localId rounds (List.mem_cons_of_mem _ hmem)
    exact ⟨hkept.trans hsame, hlast⟩

/-- Members that are running, and nothing else than their calls of `progress`. -/
structure Polled (state last : MemoryState) (node : Nat) (calls : List (LocalityId × Nat)) :
    Prop where
  running : ∀ index, last.stopped index = false
  members : last.members = state.members
  tick : last.tick = min (u64Bound - 1) (state.tick + calls.length)
  backlog : last.backlog node ≤ state.backlog node
  delayed : calls ≠ [] → ∀ item ∈ last.delayed, item ∈ state.delayed ∧ last.tick < item.releaseAt
  drained : state.delayed = [] → last.delayed = [] ∧
    (last.nodes node).queue.length = (state.nodes node).queue.length - asked node calls

theorem Metered.polled (h : state.Metered) (hrunning : ∀ index, state.stopped index = false)
    (htick : state.tick < u64Bound) {calls : List (LocalityId × Nat)}
    (hmembers : ∀ call ∈ calls, call.1.get.toNat < state.members) (node : Nat) :
    state.Polled ((polls calls).foldl MemoryState.apply state) node calls := by
  induction calls generalizing state with
  | nil =>
    refine ⟨hrunning, rfl, ?_, Nat.le_refl _, fun hne => absurd rfl hne, ?_⟩
    · change state.tick = min (u64Bound - 1) (state.tick + 0)
      omega
    · intro hnone
      exact ⟨hnone, by simp [asked, polls]⟩
  | cons call rest ih =>
    obtain ⟨localId, maxEvents⟩ := call
    obtain ⟨⟨hsame, hnext, hdelayed⟩, hless, hdrained⟩ :=
      h.poll (hrunning localId.get.toNat) (hmembers _ List.mem_cons_self) maxEvents node
    obtain ⟨hmetered, -, -, hstopped, -⟩ := h.progress localId maxEvents
    have hlast := ih hmetered (by rw [hstopped]; exact hrunning)
      (by rw [hnext]; exact state.nextTick_bound) (by
        intro other hmem
        rw [hsame]
        exact hmembers other (List.mem_cons_of_mem _ hmem))
    change Polled state ((polls rest).foldl MemoryState.apply (state.progress localId maxEvents).1) node _
    refine ⟨hlast.running, hlast.members.trans hsame, ?_, hlast.backlog.trans hless, ?_, ?_⟩
    · rw [hlast.tick, hnext, List.length_cons]
      unfold nextTick saturatingAdd
      omega
    · intro _ item hmem
      cases rest with
      | nil =>
        change item ∈ (state.progress localId maxEvents).1.delayed at hmem
        rw [hdelayed] at hmem
        obtain ⟨hold, hlater⟩ := List.mem_filter.mp hmem
        refine ⟨hold, ?_⟩
        change (state.progress localId maxEvents).1.tick < _
        rw [hnext]
        exact of_decide_eq_true hlater
      | cons other rest =>
        obtain ⟨hold, hlater⟩ := hlast.delayed (List.cons_ne_nil _ _) item hmem
        rw [hdelayed] at hold
        exact ⟨List.mem_of_mem_filter hold, hlater⟩
    · intro hnone
      obtain ⟨hgone, hqueue⟩ := hlast.drained (by rw [hdelayed, hnone]; rfl)
      refine ⟨hgone, ?_⟩
      rw [hqueue, hdrained hnone, asked_cons node (localId, maxEvents) rest]
      omega

/-- Drivers that ask often enough, and late enough for what is delayed, leave nothing behind. -/
theorem Metered.emptied_by_polls (h : state.Metered) (hrunning : ∀ index, state.stopped index = false)
    (htick : state.tick < u64Bound) {first second : List (LocalityId × Nat)} (hfirst : first ≠ [])
    (hmembers : ∀ call ∈ first ++ second, call.1.get.toNat < state.members)
    (hbound : ∀ item ∈ state.delayed, item.releaseAt < u64Bound)
    (hdue : ∀ item ∈ state.delayed, item.releaseAt ≤ state.tick + first.length) {node : Nat}
    (hasked : state.backlog node ≤ asked node second) :
    ((polls (first ++ second)).foldl MemoryState.apply state).delayed = [] ∧
      (((polls (first ++ second)).foldl MemoryState.apply state).nodes node).queue = [] := by
  have hearly := h.polled hrunning htick
    (fun call hmem => hmembers call (List.mem_append_left _ hmem)) node
  have hmetered := (h.run (polls first)).1
  rw [show polls (first ++ second) = polls first ++ polls second from List.map_append,
    List.foldl_append]
  have hnone : (List.foldl MemoryState.apply state (polls first)).delayed = [] := by
    refine List.eq_nil_iff_forall_not_mem.mpr ?_
    intro item hmem
    obtain ⟨hold, hlater⟩ := hearly.delayed hfirst item hmem
    have hlow := hdue item hold
    have hhigh := hbound item hold
    rw [hearly.tick] at hlater
    omega
  have hlocal : ∀ call ∈ second,
      call.1.get.toNat < ((polls first).foldl MemoryState.apply state).members := by
    intro call hmem
    rw [hearly.members]
    exact hmembers call (List.mem_append_right _ hmem)
  have hlate := hmetered.polled hearly.running (by rw [hearly.tick]; omega) hlocal node
  obtain ⟨hgone, hqueue⟩ := hlate.drained hnone
  refine ⟨hgone, List.eq_nil_of_length_eq_zero ?_⟩
  have hless := hearly.backlog
  unfold backlog at hless hasked
  rw [hqueue]
  omega

theorem allAccepted_append (state : MemoryState) (first second : List Op) :
    state.allAccepted (first ++ second) =
      state.allAccepted first ++ (first.foldl MemoryState.apply state).allAccepted second := by
  induction first generalizing state with
  | nil => rfl
  | cons op rest ih => simp [allAccepted, ih]

theorem allAccepted_polls (state : MemoryState) (calls : List (LocalityId × Nat)) :
    state.allAccepted (polls calls) = [] := by
  induction calls generalizing state with
  | nil => rfl
  | cons call rest ih => exact ih _

/-- Whatever the fault script is, and however accepted sends and calls of `progress` interleave
    before any shutdown: the copies that the script lets through, and no others, have arrived or
    are delayed until their tick; once a node's driver has asked often enough it has been handed
    all of them; parcels that took `Pass` keep their order; and each call of `progress` hands out
    the first events of the queue. -/
theorem delivered_as_scripted {localityCount : Nat} {runId : RunId} {limits : ProtocolLimits}
    {faults : List MemoryFault} {start : MemoryState}
    (hbuild : build localityCount runId limits faults = .ok start) {ops : List Op}
    (hopen : ∀ localId rounds, Op.shutdown localId rounds ∉ ops) :
    (∃ out pending, (ops.foldl apply start).Scripted (start.allAccepted ops) out pending
      fun node => start.allHanded node ops) ∧
    (∀ first second node, first ≠ [] →
      (∀ call ∈ first ++ second, call.1.get.toNat < localityCount) →
      (∀ item ∈ (ops.foldl apply start).delayed,
        item.releaseAt ≤ (ops.foldl apply start).tick + first.length) →
      (ops.foldl apply start).backlog node ≤ asked node second →
      ∀ channel, (Node.onChannel channel
        (start.allHanded node (ops ++ polls (first ++ second)))).Perm
          (copiesTo (start.allAccepted ops) node channel)) ∧
    (∀ node channel, (∀ shipment ∈ start.allAccepted ops,
        shipment.To node channel → shipment.fault = .pass) →
      Node.onChannel channel (start.allHanded node ops) ++
          ((ops.foldl apply start).nodes node).incoming channel =
        passedTo (start.allAccepted ops) node channel) ∧
    ∀ localId maxEvents, localId.get.toNat < localityCount →
      ((ops.foldl apply start).progress localId maxEvents).2.2.1 =
        ((ops.foldl apply start).tickAndRelease.1.nodes localId.get.toNat).queue.take maxEvents := by
  obtain ⟨hmetered, -, -, -⟩ := build_metered hbuild
  obtain ⟨hscripted, hmembers, hrunning⟩ := build_scripted hbuild
  obtain ⟨out, pending, hreached⟩ := hscripted.run hmetered hopen
  obtain ⟨hkept, hopened⟩ := hmetered.run_running hrunning hopen
  have hlast := (hmetered.run ops).1
  refine ⟨⟨out, pending, hreached⟩, ?_, fun node channel hpass => hreached.in_turn hpass, ?_⟩
  · intro first second node hfirst hcalls hdue hasked channel
    have hwhole : ∀ localId rounds, Op.shutdown localId rounds ∉ ops ++ polls (first ++ second) := by
      intro localId rounds hmem
      rcases List.mem_append.mp hmem with hold | hnew
      · exact hopen localId rounds hold
      · obtain ⟨call, -, hcall⟩ := List.mem_map.mp hnew
        cases hcall
    obtain ⟨out', pending', hafter⟩ := hscripted.run hmetered hwhole
    rw [allAccepted_append, allAccepted_polls, List.append_nil, List.foldl_append] at hafter
    obtain ⟨hgone, hqueue⟩ := hlast.emptied_by_polls hopened hreached.tick hfirst
      (by rw [hkept, hmembers]; exact hcalls) hreached.late hdue hasked
    exact hafter.complete hgone hqueue channel
  · intro localId maxEvents hmember
    exact (hlast.progress_eq (hopened _) (by rw [hkept, hmembers]; exact hmember) maxEvents).2

/-- The first of two parcels is delayed for two ticks and the second is lost: after three calls
    of `progress` the destination has been handed the first, once. -/
theorem delivered_as_scripted_delayed :
    ∃ start, build 2 ⟨1, by decide⟩ (sampleConfig 1).hello.limits [.delay 2, .loss] = .ok start ∧
      start.allHanded 0 ([.trySend ⟨1⟩ (sampleParcel [5]), .trySend ⟨1⟩ (sampleParcel [6])] ++
        polls ([(⟨0⟩, 0), (⟨0⟩, 0)] ++ [(⟨0⟩, 4)])) = [sampleParcel [5]] ∧
      (Node.onChannel .action (start.allHanded 0
        ([.trySend ⟨1⟩ (sampleParcel [5]), .trySend ⟨1⟩ (sampleParcel [6])] ++
          polls ([(⟨0⟩, 0), (⟨0⟩, 0)] ++ [(⟨0⟩, 4)])))).Perm
        (copiesTo (start.allAccepted [.trySend ⟨1⟩ (sampleParcel [5]),
          .trySend ⟨1⟩ (sampleParcel [6])]) 0 .action) := by
  obtain ⟨-, hcomplete, -, -⟩ := @delivered_as_scripted 2 ⟨1, by decide⟩
    (sampleConfig 1).hello.limits [.delay 2, .loss] _ rfl
    [.trySend ⟨1⟩ (sampleParcel [5]), .trySend ⟨1⟩ (sampleParcel [6])] (by simp)
  exact ⟨_, rfl, by decide +kernel, hcomplete [(⟨0⟩, 0), (⟨0⟩, 0)] [(⟨0⟩, 4)] 0 (by simp)
    (by decide +kernel) (by decide +kernel) (by decide +kernel) .action⟩

end MemoryState

end Hataori.Transport
