import Hataori.Lib.Maps
import Hataori.Transport.Accounts
import Hataori.Transport.Memory

/-!
# The books of the in-memory transport

A node's system queue holds the tickets its driver has not reported, and its incoming
queues the parcels it has not handed out; `progress` moves them to the caller one by
one. Only the `clear` of a shutdown throws any away.
-/

namespace Hataori.Transport

open Hataori.Runtime Lib.Maps

@[simp] theorem Arrivals.at_nil (node : Nat) : Arrivals.at [] node = [] := rfl

@[simp] theorem Arrivals.at_append (first second : Arrivals) (node : Nat) :
    Arrivals.at (first ++ second) node = first.at node ++ second.at node :=
  List.filterMap_append

/-! ## One node -/

namespace Node

/-- The parcels a node has not handed out. -/
def waiting (node : Node) : List Parcel := channels.flatMap node.incoming

/-- More parcels in one queue are more parcels in all. -/
theorem waiting_update {incoming : Channel → List Parcel} {channel : Channel}
    {queue added : List Parcel} (h : queue.Perm (added ++ incoming channel)) :
    (channels.flatMap (Function.update incoming channel queue)).Perm
      (added ++ channels.flatMap incoming) := by
  apply flatMap_perm_of_entry (by decide) (SubmissionState.mem_channels channel)
  · intro other hne
    rw [Function.update_of_ne hne]
  · rw [Function.update_self]
    exact h

theorem pop_system {node after : Node} {event : TransportEvent}
    (h : node.pop = some (event, after)) : after.system <:+ node.system := by
  unfold pop at h
  split at h
  · rename_i hsystem
    cases h
    rw [hsystem]
    exact List.suffix_cons _ _
  · split at h
    all_goals
      cases h
    all_goals
      exact List.suffix_refl _

/-- The event taken from a node is gone from its queues. -/
theorem pop_books {node after : Node} {event : TransportEvent}
    (h : node.pop = some (event, after)) :
    resolvedTickets node.system = resolvedTickets [event] ++ resolvedTickets after.system ∧
      (incomingParcels node.system ++ node.waiting).Perm
        (incomingParcels [event] ++ (incomingParcels after.system ++ after.waiting)) := by
  unfold pop at h
  split at h
  · rename_i first rest hsystem
    cases h
    rw [hsystem]
    constructor
    · rw [← resolvedTickets_append]
      rfl
    · rw [← List.append_assoc, ← incomingParcels_append]
      exact .refl _
  rename_i hsystem
  have hqueue : ∀ {channel parcel rest}, node.incoming channel = parcel :: rest →
      node.waiting.Perm
        ([parcel] ++ channels.flatMap (Function.update node.incoming channel rest)) := by
    intro channel parcel rest hincoming
    apply flatMap_perm_of_entry (by decide) (SubmissionState.mem_channels channel)
    · intro other hne
      rw [Function.update_of_ne hne]
    · rw [Function.update_self, hincoming]
      exact .refl _
  split at h
  · rename_i hincoming
    cases h
    exact ⟨by rw [hsystem]; rfl, by rw [hsystem]; exact hqueue hincoming⟩
  · rename_i hincoming
    cases h
    exact ⟨by rw [hsystem]; rfl, by rw [hsystem]; exact hqueue hincoming⟩
  · rename_i hincoming
    cases h
    exact ⟨by rw [hsystem]; rfl, by rw [hsystem]; exact hqueue hincoming⟩
  · cases h

/-- The loop of `progress` moves events from the queues to the caller. -/
theorem take_books (budget : Nat) {node : Node} (hsystem : incomingParcels node.system = [])
    (hsound : ∀ parcel ∈ node.waiting, parcel.payload < u64Bound) :
    (node.take budget).2.2 = .ok () ∧
      resolvedTickets node.system = resolvedTickets (node.take budget).2.1 ++
        resolvedTickets (node.take budget).1.system ∧
      node.waiting.Perm (incomingParcels (node.take budget).2.1 ++
        (node.take budget).1.waiting) ∧
      incomingParcels (node.take budget).1.system = [] := by
  induction budget generalizing node with
  | zero => exact ⟨rfl, rfl, .refl _, hsystem⟩
  | succ budget ih =>
    rw [take]
    cases hpop : node.pop with
    | none => exact ⟨rfl, rfl, .refl _, hsystem⟩
    | some popped =>
      obtain ⟨event, after⟩ := popped
      obtain ⟨htickets, hparcels⟩ := pop_books hpop
      rw [hsystem, List.nil_append] at hparcels
      -- What is left is still sound, and holds no parcel among the system events.
      have hrest : incomingParcels after.system = [] ∧
          ∀ parcel ∈ after.waiting, parcel.payload < u64Bound := by
        constructor
        · obtain ⟨popped, happend⟩ := pop_system hpop
          rw [← happend, incomingParcels_append] at hsystem
          exact (List.append_eq_nil_iff.mp hsystem).2
        · intro parcel hmem
          exact hsound parcel (hparcels.mem_iff.mpr
            (List.mem_append_right _ (List.mem_append_right _ hmem)))
      obtain ⟨hafter, hsound'⟩ := hrest
      rw [hafter, List.nil_append] at hparcels
      have hgo : ∀ next : Node, next.system = after.system → next.incoming = after.incoming →
          (next.take budget).2.2 = .ok () ∧
          resolvedTickets node.system = resolvedTickets (event :: (next.take budget).2.1) ++
            resolvedTickets (next.take budget).1.system ∧
          node.waiting.Perm (incomingParcels (event :: (next.take budget).2.1) ++
            (next.take budget).1.waiting) ∧
          incomingParcels (next.take budget).1.system = [] := by
        intro next hnext hincoming
        have hwaiting : next.waiting = after.waiting := by rw [waiting, waiting, hincoming]
        obtain ⟨hok, hmore, hperm, hnone⟩ := @ih next (by rw [hnext]; exact hafter)
          (by rw [hwaiting]; exact hsound')
        rw [hnext] at hmore
        rw [hwaiting] at hperm
        refine ⟨hok, ?_, ?_, hnone⟩
        · rw [htickets, hmore, ← List.append_assoc, ← resolvedTickets_append]
          rfl
        · refine hparcels.trans ?_
          refine (hperm.append_left _).trans ?_
          rw [← List.append_assoc, ← incomingParcels_append]
          exact .refl _
      cases event with
      | incoming parcel =>
        have hbound : parcel.payload < u64Bound :=
          hsound parcel (hparcels.mem_iff.mpr (List.mem_append_left _ List.mem_cons_self))
        have hlen : parcel.payloadLen = .ok parcel.payload := checked_of_lt hbound
        simp only [hlen]
        exact hgo (after.release parcel.payload) rfl rfl
      | localSendComplete ticket => exact hgo after rfl rfl
      | sendFailed ticket error => exact hgo after rfl rfl
      | peerFailed peer error => exact hgo after rfl rfl
      | shutdownComplete => exact hgo after rfl rfl

end Node

/-! ## What arrives -/

namespace MemoryState

/-- Delayed parcels have a destination, no parcel is too long for its length to be
    computed, and system queues hold no parcels. -/
structure Kempt (state : MemoryState) : Prop where
  delayed : ∀ item ∈ state.delayed,
    item.destination.get.toNat < state.members ∧ item.parcel.payload < u64Bound
  queued : ∀ node, ∀ parcel ∈ (state.nodes node).waiting, parcel.payload < u64Bound
  system : ∀ node, incomingParcels (state.nodes node).system = []

/-- Parcels arrived and nothing else that a caller is told about happened. -/
structure Fed (before after : MemoryState) (arrivals : Arrivals) : Prop where
  kempt : after.Kempt
  members : after.members = before.members
  nextTicket : after.nextTicket = before.nextTicket
  system : ∀ node, resolvedTickets (after.nodes node).system =
    resolvedTickets (before.nodes node).system
  waiting : ∀ node, (after.nodes node).waiting.Perm
    (arrivals.at node ++ (before.nodes node).waiting)

variable {state before middle after : MemoryState} {first second : Arrivals}

@[simp] theorem setNode_same (state : MemoryState) (index : Nat) (node : Node) :
    (state.setNode index node).nodes index = node := Function.update_self ..

theorem setNode_of_ne {state : MemoryState} {index other : Nat} {node : Node}
    (h : other ≠ index) : (state.setNode index node).nodes other = state.nodes other :=
  Function.update_of_ne h ..

theorem Fed.refl (h : state.Kempt) : Fed state state [] :=
  ⟨h, rfl, rfl, fun _ => rfl, fun _ => .refl _⟩

theorem Fed.trans (hfirst : Fed before middle first) (hsecond : Fed middle after second) :
    Fed before after (first ++ second) := by
  refine ⟨hsecond.kempt, hsecond.members.trans hfirst.members,
    hsecond.nextTicket.trans hfirst.nextTicket,
    fun node => (hsecond.system node).trans (hfirst.system node), fun node => ?_⟩
  rw [Arrivals.at_append]
  refine (hsecond.waiting node).trans ?_
  refine ((hfirst.waiting node).append_left _).trans ?_
  rw [← List.append_assoc]
  exact List.perm_append_comm.append_right _

/-- A change of one node, with the parcels it added to its queues. -/
theorem Kempt.setNode (h : state.Kempt) (peer : Nat) (node : Node) (added : List Parcel)
    (hresolved : resolvedTickets node.system = resolvedTickets (state.nodes peer).system)
    (hsystem : incomingParcels node.system = [])
    (hwaiting : node.waiting.Perm (added ++ (state.nodes peer).waiting))
    (hadded : ∀ parcel ∈ added, parcel.payload < u64Bound) :
    Fed state (state.setNode peer node) (added.map (peer, ·)) := by
  have hat : ∀ other, Arrivals.at (added.map (peer, ·)) other =
      if other = peer then added else [] := by
    intro other
    rw [Arrivals.at, List.filterMap_map]
    by_cases heq : other = peer
    · subst heq
      simp
    · simp [heq, Ne.symm heq]
  have hnode : ∀ other, ((state.setNode peer node).nodes other).waiting.Perm
      (Arrivals.at (added.map (peer, ·)) other ++ (state.nodes other).waiting) := by
    intro other
    rw [hat]
    by_cases heq : other = peer
    · subst heq
      rw [if_pos rfl, setNode_same]
      exact hwaiting
    · rw [if_neg heq, setNode_of_ne heq]
      exact .refl _
  refine ⟨⟨h.delayed, ?_, ?_⟩, rfl, rfl, ?_, hnode⟩
  · intro other parcel hmem
    rcases List.mem_append.mp ((hnode other).mem_iff.mp hmem) with hnew | hold
    · rw [hat] at hnew
      split at hnew
      · exact hadded parcel hnew
      · cases hnew
    · exact h.queued other parcel hold
  · intro other
    by_cases heq : other = peer
    · subst heq
      rw [setNode_same]
      exact hsystem
    · rw [setNode_of_ne heq]
      exact h.system other
  · intro other
    by_cases heq : other = peer
    · subst heq
      rw [setNode_same]
      exact hresolved
    · rw [setNode_of_ne heq]

/-- The delayed parcels may be replaced by others that are sound. -/
theorem Fed.withDelayed (h : Fed before after first) {delayed : List Delayed}
    (hdelayed : ∀ item ∈ delayed,
      item.destination.get.toNat < before.members ∧ item.parcel.payload < u64Bound) :
    Fed before { after with delayed := delayed } first :=
  ⟨⟨fun item hmem => by rw [show _ = before.members from h.members]; exact hdelayed item hmem,
    h.kempt.queued, h.kempt.system⟩, h.members, h.nextTicket, h.system, h.waiting⟩

theorem Kempt.enqueue (h : state.Kempt) (peer : Nat) {parcel : Parcel} (bytes : Nat)
    (front : Bool) (hbound : parcel.payload < u64Bound) :
    Fed state (state.enqueue peer parcel bytes front) [(peer, parcel)] := by
  refine h.setNode peer _ [parcel] rfl (h.system peer) ?_ ?_
  · apply Node.waiting_update
    cases front with
    | true => exact .refl _
    | false => exact List.perm_append_singleton _ _
  · intro other hmem
    rw [List.mem_singleton.mp hmem]
    exact hbound

theorem Kempt.pushNote (h : state.Kempt) (me : Nat) {event : TransportEvent}
    (hresolved : resolvedTickets [event] = []) (hincoming : incomingParcels [event] = []) :
    Fed state (state.pushSystem me event) [] := by
  refine h.setNode me _ [] ?_ ?_ (.refl _) (by simp)
  · rw [resolvedTickets_append, hresolved, List.append_nil]
  · rw [incomingParcels_append, hincoming, h.system me]
    rfl

/-- Whatever the fault, an accepted parcel only arrives. -/
theorem Kempt.inject (h : state.Kempt) (me : Nat) {peer : Nat} {parcel : Parcel} (bytes : Nat)
    (hpeer : memberIndex parcel.destination state.members = .ok peer)
    (hbound : parcel.payload < u64Bound) (fault : MemoryFault) :
    Fed state (state.inject me peer parcel bytes fault).1
      (state.inject me peer parcel bytes fault).2.1 := by
  cases fault with
  | saturate => exact .refl h
  | loss => exact .refl h
  | disconnect => exact h.pushNote me rfl rfl
  | delay progressTicks =>
    rw [MemoryState.inject]
    split
    · exact .refl h
    · obtain ⟨rfl, hlt⟩ := memberIndex_ok hpeer
      have hheld := h.setNode parcel.destination.get.toNat
        { state.nodes parcel.destination.get.toNat with
          delayedCounts := Function.update
            (state.nodes parcel.destination.get.toNat).delayedCounts parcel.channel
            ((state.nodes parcel.destination.get.toNat).delayedCounts parcel.channel + 1)
          queuedBytes := (state.nodes parcel.destination.get.toNat).queuedBytes + bytes }
        [] rfl (h.system _) (.refl _) (by simp)
      refine hheld.withDelayed fun item hmem => ?_
      rcases List.mem_append.mp hmem with hold | hnew
      · exact h.delayed item hold
      · rw [List.mem_singleton.mp hnew]
        exact ⟨hlt, hbound⟩
  | duplicate =>
    rw [MemoryState.inject]
    split
    · exact .refl h
    · have hone := h.enqueue peer bytes false hbound
      exact hone.trans (hone.kempt.enqueue peer bytes false hbound)
  | reorder =>
    rw [MemoryState.inject]
    split
    · exact .refl h
    · exact h.enqueue peer bytes true hbound
  | pass =>
    rw [MemoryState.inject]
    split
    · exact .refl h
    · exact h.enqueue peer bytes false hbound

/-- Delayed parcels that are due arrive, and every one is either released or retained. -/
theorem Kempt.releaseFrom {retained items : List Delayed} (h : state.Kempt)
    (hretained : ∀ item ∈ retained,
      item.destination.get.toNat < state.members ∧ item.parcel.payload < u64Bound)
    (hitems : ∀ item ∈ items,
      item.destination.get.toNat < state.members ∧ item.parcel.payload < u64Bound) :
    Fed state (releaseFrom retained items state).1 (releaseFrom retained items state).2.1 ∧
      (releaseFrom retained items state).2.2 = .ok () := by
  induction items generalizing retained state with
  | nil => exact ⟨(Fed.refl h).withDelayed hretained, rfl⟩
  | cons item rest ih =>
    have hitem := hitems item List.mem_cons_self
    have hrest : ∀ item ∈ rest,
        item.destination.get.toNat < state.members ∧ item.parcel.payload < u64Bound :=
      fun other hmem => hitems other (List.mem_cons_of_mem _ hmem)
    rw [MemoryState.releaseFrom]
    split
    · rw [memberIndex, if_pos hitem.1]
      dsimp only
      have hone := h.setNode item.destination.get.toNat
        { state.nodes item.destination.get.toNat with
          delayedCounts := Function.update
            (state.nodes item.destination.get.toNat).delayedCounts item.parcel.channel
            ((state.nodes item.destination.get.toNat).delayedCounts item.parcel.channel - 1)
          incoming := Function.update (state.nodes item.destination.get.toNat).incoming
            item.parcel.channel
            ((state.nodes item.destination.get.toNat).incoming item.parcel.channel ++
              [item.parcel]) }
        [item.parcel] rfl (h.system _) (Node.waiting_update (List.perm_append_singleton _ _))
        (fun other hmem => by rw [List.mem_singleton.mp hmem]; exact hitem.2)
      obtain ⟨hmore, hok⟩ := ih hone.kempt hretained hrest
      exact ⟨hone.trans hmore, hok⟩
    · apply ih h _ hrest
      intro other hmem
      rcases List.mem_append.mp hmem with hold | hnew
      · exact hretained other hold
      · rw [List.mem_singleton.mp hnew]
        exact hitem

theorem Kempt.tickAndRelease (h : state.Kempt) :
    Fed state state.tickAndRelease.1 state.tickAndRelease.2.1 ∧
      state.tickAndRelease.2.2 = .ok () := by
  have hticked : Kempt { state with tick := saturatingAdd state.tick 1 } :=
    ⟨h.delayed, h.queued, h.system⟩
  obtain ⟨hfed, hok⟩ := hticked.releaseFrom (List.forall_mem_nil _) h.delayed
  exact ⟨⟨hfed.kempt, hfed.members, hfed.nextTicket, hfed.system, hfed.waiting⟩, hok⟩

theorem Kempt.flush (h : state.Kempt) (localId : LocalityId) (rounds : Nat) :
    Fed state (flush localId rounds state).1 (flush localId rounds state).2.1 := by
  induction rounds generalizing state with
  | zero =>
    have hround := h.tickAndRelease
    rw [MemoryState.flush]
    generalize state.tickAndRelease = step at hround ⊢
    obtain ⟨after, arrivals, result⟩ := step
    cases hround.2
    dsimp only
    split <;> exact hround.1
  | succ rounds ih =>
    have hround := h.tickAndRelease
    rw [MemoryState.flush]
    generalize state.tickAndRelease = step at hround ⊢
    obtain ⟨after, arrivals, result⟩ := step
    cases hround.2
    dsimp only
    split
    · exact hround.1.trans (ih hround.1.kempt)
    · exact hround.1

theorem Kempt.cancelFrom {locality : LocalityId} {retained items : List Delayed} (h : state.Kempt)
    (hretained : ∀ item ∈ retained,
      item.destination.get.toNat < state.members ∧ item.parcel.payload < u64Bound)
    (hitems : ∀ item ∈ items,
      item.destination.get.toNat < state.members ∧ item.parcel.payload < u64Bound) :
    Fed state (cancelFrom locality retained items state).1 [] ∧
      (cancelFrom locality retained items state).2 = .ok () := by
  induction items generalizing retained state with
  | nil => exact ⟨(Fed.refl h).withDelayed hretained, rfl⟩
  | cons item rest ih =>
    have hitem := hitems item List.mem_cons_self
    have hrest : ∀ item ∈ rest,
        item.destination.get.toNat < state.members ∧ item.parcel.payload < u64Bound :=
      fun other hmem => hitems other (List.mem_cons_of_mem _ hmem)
    rw [MemoryState.cancelFrom]
    split
    · split
      · exact ih h hretained hrest
      · rw [memberIndex, if_pos hitem.1]
        have hone := h.setNode item.destination.get.toNat
          { state.nodes item.destination.get.toNat with
            delayedCounts := Function.update
              (state.nodes item.destination.get.toNat).delayedCounts item.parcel.channel
              ((state.nodes item.destination.get.toNat).delayedCounts item.parcel.channel - 1)
            queuedBytes := (state.nodes item.destination.get.toNat).queuedBytes - item.bytes }
          [] rfl (h.system _) (.refl _) (by simp)
        obtain ⟨hmore, hok⟩ := ih hone.kempt hretained hrest
        exact ⟨hone.trans hmore, hok⟩
    · apply ih h _ hrest
      intro other hmem
      rcases List.mem_append.mp hmem with hold | hnew
      · exact hretained other hold
      · rw [List.mem_singleton.mp hnew]
        exact hitem

/-! ## The books -/

/-- What the callers of one node have seen, and the parcels that arrived at it. -/
abbrev Logs := Nat → Log

/-- One call, written into the logs. -/
def record (entry : MemoryState × Logs) (op : Op) : MemoryState × Logs :=
  (entry.1.apply op, fun node =>
    { issued := (entry.2 node).issued ++
        if op.localId.get.toNat = node then entry.1.issued op else []
      handed := (entry.2 node).handed ++
        if op.localId.get.toNat = node then entry.1.handed op else []
      decoded := (entry.2 node).decoded ++ (entry.1.arrivals op).at node })

/-- Nothing is left in the queues that the call clears. -/
def fits (state : MemoryState) : Op → Bool
  | .shutdown localId rounds =>
    match flush localId rounds (state.deactivate localId.get.toNat) with
    | (_, _, .error _) => true
    | (after, _, .ok ()) =>
      (after.nodes localId.get.toNat).system.isEmpty &&
        channels.all fun channel => ((after.nodes localId.get.toNat).incoming channel).isEmpty
  | _ => true

/-- Every call of a sequence fits, in the state it is made in. -/
def allFit (state : MemoryState) : List Op → Bool
  | [] => true
  | op :: rest => state.fits op && allFit (state.apply op) rest

/-- The books of one node. -/
structure Books (log : Log) (node : Node) : Prop where
  decoded : log.decoded.Perm (incomingParcels log.handed ++ node.waiting)
  tickets : log.issued = resolvedTickets log.handed ++ resolvedTickets node.system

/-- The books of a network. -/
structure Accounted (state : MemoryState) (logs : Logs) : Prop where
  kempt : state.Kempt
  books : ∀ node, Books (logs node) (state.nodes node)
  fresh : ∀ node, ∀ ticket ∈ (logs node).issued, ticket.get < state.nextTicket
  nodup : ∀ node, (logs node).issued.Nodup

/-- The logs of a call that issued and handed over nothing. -/
def arrived (logs : Logs) (arrivals : Arrivals) : Logs :=
  fun node => { logs node with decoded := (logs node).decoded ++ arrivals.at node }

variable {logs : Logs}

theorem Accounted.fed (h : state.Accounted logs) (hfed : Fed state after first) :
    after.Accounted (arrived logs first) := by
  refine ⟨hfed.kempt, fun node => ⟨?_, ?_⟩, ?_, h.nodup⟩
  · refine ((h.books node).decoded.append_right _).trans ?_
    rw [List.append_assoc]
    refine List.Perm.append_left _ ?_
    exact List.perm_append_comm.trans (hfed.waiting node).symm
  · rw [hfed.system]
    exact (h.books node).tickets
  · rw [hfed.nextTicket]
    exact h.fresh

/-- A ticket is issued together with the event that reports it. -/
theorem Accounted.issue (h : state.Accounted logs) {me : Nat} {ticket : SendTicket}
    (hold : ∀ node, ∀ other ∈ (logs node).issued, other.get < ticket.get)
    (hnext : ticket.get < state.nextTicket) :
    (state.pushSystem me (.localSendComplete ticket)).Accounted fun node =>
      { logs node with
        issued := (logs node).issued ++ if me = node then [ticket] else [] } := by
  refine ⟨⟨h.kempt.delayed, ?_, ?_⟩, ?_, ?_, ?_⟩
  · intro node parcel hmem
    by_cases heq : node = me
    · subst heq
      rw [pushSystem, setNode_same] at hmem
      exact h.kempt.queued node parcel hmem
    · rw [pushSystem, setNode_of_ne heq] at hmem
      exact h.kempt.queued node parcel hmem
  · intro node
    by_cases heq : node = me
    · subst heq
      rw [pushSystem, setNode_same, incomingParcels_append, h.kempt.system]
      rfl
    · rw [pushSystem, setNode_of_ne heq]
      exact h.kempt.system node
  · intro node
    by_cases heq : node = me
    · subst heq
      rw [pushSystem, setNode_same]
      refine ⟨(h.books node).decoded, ?_⟩
      rw [if_pos rfl, (h.books node).tickets, resolvedTickets_append, List.append_assoc]
      rfl
    · rw [pushSystem, setNode_of_ne heq, if_neg (Ne.symm heq), List.append_nil]
      exact h.books node
  · intro node other hmem
    rcases List.mem_append.mp hmem with hmem | hmem
    · exact h.fresh node other hmem
    · split at hmem
      · rw [List.mem_singleton.mp hmem]
        exact hnext
      · cases hmem
  · intro node
    split
    · refine (List.perm_append_singleton _ _).nodup_iff.mpr
        (List.nodup_cons.mpr ⟨fun hmem => ?_, h.nodup node⟩)
      exact Nat.lt_irrefl _ (hold node ticket hmem)
    · rw [List.append_nil]
      exact h.nodup node

/-- A refused send, and one that passed the checks. -/
theorem trySend_cases (state : MemoryState) (localId : LocalityId) (parcel : Parcel) :
    (∃ error, state.trySend localId parcel = (state, [], .error error)) ∨
      ∃ peer, memberIndex parcel.destination state.members = .ok peer ∧
        parcel.payload < u64Bound ∧
        state.trySend localId parcel =
          state.submit localId.get.toNat peer parcel parcel.payload := by
  unfold trySend
  split
  · exact Or.inl ⟨_, rfl⟩
  rename_i me hme
  obtain ⟨rfl, -⟩ := memberIndex_ok hme
  split
  · exact Or.inl ⟨_, rfl⟩
  split
  · exact Or.inl ⟨_, rfl⟩
  split
  · exact Or.inl ⟨_, rfl⟩
  split
  · exact Or.inl ⟨_, rfl⟩
  split
  · exact Or.inl ⟨_, rfl⟩
  rename_i peer hpeer
  split
  · exact Or.inl ⟨_, rfl⟩
  split
  · exact Or.inl ⟨_, rfl⟩
  rename_i bytes hbytes
  obtain ⟨rfl, hbound⟩ := checked_ok hbytes
  exact Or.inr ⟨peer, hpeer, hbound, rfl⟩

theorem Accounted.trySend (h : state.Accounted logs) (localId : LocalityId) (parcel : Parcel) :
    (state.trySend localId parcel).1.Accounted fun node =>
      { logs node with
        issued := (logs node).issued ++ if localId.get.toNat = node then
          (state.trySend localId parcel).2.2.toOption.toList else []
        decoded := (logs node).decoded ++ (state.trySend localId parcel).2.1.at node } := by
  rcases state.trySend_cases localId parcel with ⟨error, hsend⟩ | ⟨peer, hpeer, hbound, hsend⟩
  · rw [hsend]
    simpa [Except.toOption] using h
  rw [hsend, submit]
  split
  · simpa [Except.toOption] using h
  dsimp only
  -- A ticket and a fault are taken before the parcel goes anywhere.
  have htaken : Kempt { state with
      nextTicket := state.nextTicket + 1, faults := state.faults.tail } :=
    ⟨h.kempt.delayed, h.kempt.queued, h.kempt.system⟩
  have hfed := htaken.inject localId.get.toNat parcel.payload hpeer hbound
    (state.faults.headD .pass)
  have hbooks : MemoryState.Accounted { state with
      nextTicket := state.nextTicket + 1, faults := state.faults.tail } logs :=
    ⟨htaken, h.books, fun node ticket hmem => Nat.lt_succ_of_lt (h.fresh node ticket hmem), h.nodup⟩
  have hdone := hbooks.fed hfed
  generalize MemoryState.inject _ localId.get.toNat peer parcel parcel.payload
    (state.faults.headD .pass) = step at hfed hdone ⊢
  obtain ⟨next, arrivals, result⟩ := step
  cases result with
  | error error =>
    unfold arrived at hdone
    simpa [Except.toOption] using hdone
  | ok done =>
    refine hdone.issue h.fresh ?_
    rw [show next.nextTicket = state.nextTicket + 1 from hfed.nextTicket]
    exact Nat.lt_succ_self _

/-- What one node hands over leaves its queues. -/
theorem Accounted.take (h : state.Accounted logs) (me maxEvents : Nat) :
    ((state.nodes me).take maxEvents).2.2 = .ok () ∧
      (state.setNode me ((state.nodes me).take maxEvents).1).Accounted fun node =>
        { logs node with
          handed := (logs node).handed ++
            if me = node then ((state.nodes me).take maxEvents).2.1 else [] } := by
  obtain ⟨hok, htickets, hwaiting, hsystem⟩ :=
    Node.take_books maxEvents (h.kempt.system me) (h.kempt.queued me)
  refine ⟨hok, ⟨h.kempt.delayed, ?_, ?_⟩, ?_, h.fresh, h.nodup⟩
  · intro node parcel hmem
    by_cases heq : node = me
    · subst heq
      rw [setNode_same] at hmem
      exact h.kempt.queued node parcel (hwaiting.mem_iff.mpr (List.mem_append_right _ hmem))
    · rw [setNode_of_ne heq] at hmem
      exact h.kempt.queued node parcel hmem
  · intro node
    by_cases heq : node = me
    · subst heq
      rw [setNode_same]
      exact hsystem
    · rw [setNode_of_ne heq]
      exact h.kempt.system node
  · intro node
    by_cases heq : node = me
    · subst heq
      rw [setNode_same, if_pos rfl]
      refine ⟨?_, ?_⟩
      · dsimp only
        rw [incomingParcels_append, List.append_assoc]
        exact (h.books node).decoded.trans (hwaiting.append_left _)
      · dsimp only
        rw [(h.books node).tickets, htickets, resolvedTickets_append, List.append_assoc]
    · rw [setNode_of_ne heq, if_neg (Ne.symm heq), List.append_nil]
      exact h.books node

theorem Accounted.progress (h : state.Accounted logs) (localId : LocalityId) (maxEvents : Nat) :
    (state.progress localId maxEvents).1.Accounted fun node =>
      { logs node with
        handed := (logs node).handed ++ if localId.get.toNat = node then
          (state.progress localId maxEvents).2.2.1 else []
        decoded := (logs node).decoded ++ (state.progress localId maxEvents).2.1.at node } := by
  unfold MemoryState.progress
  split
  · simpa using h
  obtain ⟨hfed, hok⟩ := h.kempt.tickAndRelease
  have hticked := h.fed hfed
  generalize state.tickAndRelease = step at hok hticked ⊢
  obtain ⟨next, arrivals, result⟩ := step
  cases hok
  dsimp only at hticked ⊢
  split
  · unfold arrived at hticked
    simpa using hticked
  rename_i me hme
  obtain ⟨rfl, -⟩ := memberIndex_ok hme
  obtain ⟨htake, hdone⟩ := hticked.take localId.get.toNat maxEvents
  generalize (next.nodes localId.get.toNat).take maxEvents = step at htake hdone ⊢
  obtain ⟨node, events, result⟩ := step
  cases htake
  exact hdone

/-- A node whose queues are empty loses nothing when they are cleared. -/
theorem Accounted.clear (h : state.Accounted logs) {me : Nat} {node : Node}
    (hsystem : resolvedTickets (state.nodes me).system = [])
    (hwaiting : (state.nodes me).waiting = []) (hclear : node.system = [])
    (hincoming : node.incoming = fun _ => []) (stopped : Nat → Bool) :
    MemoryState.Accounted { state.setNode me node with stopped := stopped } logs := by
  have hempty : node.waiting = [] := by
    rw [Node.waiting, hincoming]
    rfl
  have hfed := h.kempt.setNode me node [] (by rw [hclear, hsystem]; rfl) (by rw [hclear]; rfl)
    (by rw [hempty, hwaiting]; exact .refl _) (List.forall_mem_nil _)
  have hdone := h.fed hfed
  have hsame : arrived logs [] = logs := by
    funext other
    simp [arrived]
  rw [show ([] : List Parcel).map (me, ·) = [] from rfl, hsame] at hdone
  exact ⟨⟨hdone.kempt.delayed, hdone.kempt.queued, hdone.kempt.system⟩, hdone.books, hdone.fresh,
    hdone.nodup⟩

/-- Events that report neither a ticket nor a parcel do not enter the books. -/
theorem Accounted.note (h : state.Accounted logs) (me : Nat) {events : List TransportEvent}
    (hresolved : resolvedTickets events = []) (hincoming : incomingParcels events = []) :
    state.Accounted fun node =>
      { logs node with handed := (logs node).handed ++ if me = node then events else [] } := by
  refine ⟨h.kempt, fun node => ?_, h.fresh, h.nodup⟩
  have hnone : resolvedTickets (if me = node then events else []) = [] ∧
      incomingParcels (if me = node then events else []) = [] := by
    split
    · exact ⟨hresolved, hincoming⟩
    · exact ⟨rfl, rfl⟩
  constructor
  · dsimp only
    rw [incomingParcels_append, hnone.2, List.append_nil]
    exact (h.books node).decoded
  · dsimp only
    rw [resolvedTickets_append, hnone.1, List.append_nil]
    exact (h.books node).tickets

theorem Kempt.deactivate (h : state.Kempt) (me : Nat) : Fed state (state.deactivate me) [] :=
  h.setNode me _ [] rfl (h.system me) (.refl _) (List.forall_mem_nil _)

/-- What a shutdown that clears nothing does to the books, and that the node has nothing
    left when it succeeds. -/
theorem Accounted.shutDown (h : state.Accounted logs) (localId : LocalityId) (rounds : Nat)
    (hfits : state.fits (.shutdown localId rounds) = true) :
    ((state.shutDown localId rounds).1.Accounted fun node =>
      { logs node with
        handed := (logs node).handed ++ if localId.get.toNat = node then
          (state.shutDown localId rounds).2.2.1 else []
        decoded := (logs node).decoded ++ (state.shutDown localId rounds).2.1.at node }) ∧
      ((state.shutDown localId rounds).2.2.2 = .ok () →
        ((state.shutDown localId rounds).1.nodes localId.get.toNat).system = [] ∧
        ((state.shutDown localId rounds).1.nodes localId.get.toNat).waiting = []) := by
  unfold MemoryState.shutDown
  split
  · exact ⟨by simpa using h, fun hok => by cases hok⟩
  rename_i me hme
  obtain ⟨rfl, -⟩ := memberIndex_ok hme
  have hinactive := h.kempt.deactivate localId.get.toNat
  have hflush := hinactive.kempt.flush localId rounds
  have hflushed := h.fed (hinactive.trans hflush)
  rw [List.nil_append] at hflushed
  unfold MemoryState.fits at hfits
  dsimp only at hfits
  generalize flush localId rounds (state.deactivate localId.get.toNat) = step
    at hflush hflushed hfits ⊢
  obtain ⟨flushed, arrivals, result⟩ := step
  cases result with
  | error error =>
    unfold arrived at hflushed
    exact ⟨by simpa using hflushed, fun hok => by cases hok⟩
  | ok done =>
    dsimp only at hfits
    rw [Bool.and_eq_true, List.isEmpty_iff, List.all_eq_true] at hfits
    have hwaiting : (flushed.nodes localId.get.toNat).waiting = [] :=
      List.flatMap_eq_nil_iff.mpr fun channel hmem =>
        List.isEmpty_iff.mp (hfits.2 channel hmem)
    have hcancel : Fed flushed (flushed.cancelLocality localId).1 [] ∧
        (flushed.cancelLocality localId).2 = .ok () :=
      hflushed.kempt.cancelFrom (List.forall_mem_nil _) hflushed.kempt.delayed
    have hcancelled := hflushed.fed hcancel.1
    have hsame : arrived (arrived logs arrivals) [] = arrived logs arrivals := by
      funext node
      simp [arrived]
    rw [hsame] at hcancelled
    dsimp only
    generalize flushed.cancelLocality localId = step at hcancel hcancelled ⊢
    obtain ⟨cancelled, result⟩ := step
    obtain ⟨hfed, hok⟩ := hcancel
    cases hok
    dsimp only at hfed hcancelled ⊢
    have hquiet : resolvedTickets (cancelled.nodes localId.get.toNat).system = [] := by
      rw [hfed.system, hfits.1]
      rfl
    have hempty : (cancelled.nodes localId.get.toNat).waiting = [] := by
      have hperm := hfed.waiting localId.get.toNat
      rw [hwaiting] at hperm
      exact hperm.eq_nil
    have hlast : (cancelled.deactivate localId.get.toNat).nodes localId.get.toNat =
        { cancelled.nodes localId.get.toNat with active := false } := setNode_same _ _ _
    have hidle := hcancelled.fed (hcancelled.kempt.deactivate localId.get.toNat)
    rw [hsame] at hidle
    have hcleared := hidle.clear (by rw [hlast]; exact hquiet) (by rw [hlast]; exact hempty)
      (show (((cancelled.deactivate localId.get.toNat).nodes localId.get.toNat).clear).system = []
        from rfl) rfl (Function.update cancelled.stopped localId.get.toNat true)
    have hdone := hcleared.note localId.get.toNat
      (show resolvedTickets [.shutdownComplete] = [] from rfl) rfl
    refine ⟨hdone, fun _ => ?_⟩
    rw [show _ = Node.clear _ from setNode_same _ _ _]
    exact ⟨rfl, rfl⟩

/-! ## Sequences of calls -/

/-- What a call keeps. -/
theorem Accounted.record (h : state.Accounted logs) {op : Op} (hfits : state.fits op = true) :
    (MemoryState.record (state, logs) op).1.Accounted (MemoryState.record (state, logs) op).2 := by
  cases op with
  | trySend localId parcel =>
    have hdone := h.trySend localId parcel
    unfold MemoryState.record Op.localId
    simpa only [apply, issued, handed, arrivals, ite_self, List.append_nil] using hdone
  | progress localId maxEvents =>
    have hdone := h.progress localId maxEvents
    unfold MemoryState.record Op.localId
    simpa only [apply, issued, handed, arrivals, ite_self, List.append_nil] using hdone
  | flush localId rounds =>
    have hdone := h.fed (h.kempt.flush localId rounds)
    unfold arrived at hdone
    unfold MemoryState.record Op.localId
    simpa only [apply, issued, handed, arrivals, ite_self, List.append_nil] using hdone
  | shutdown localId rounds =>
    have hdone := (h.shutDown localId rounds hfits).1
    unfold MemoryState.record Op.localId
    simpa only [apply, issued, handed, arrivals, ite_self, List.append_nil] using hdone

/-- The books balance after every sequence of calls that clear nothing. -/
theorem Accounted.run (h : state.Accounted logs) {ops : List Op}
    (hfits : state.allFit ops = true) :
    (ops.foldl MemoryState.record (state, logs)).1.Accounted
      (ops.foldl MemoryState.record (state, logs)).2 := by
  induction ops generalizing state logs with
  | nil => exact h
  | cons op rest ih =>
    rw [MemoryState.allFit, Bool.and_eq_true] at hfits
    exact ih (h.record hfits.1) hfits.2

theorem record_fst (entry : MemoryState × Logs) (ops : List Op) :
    (ops.foldl record entry).1 = ops.foldl apply entry.1 := by
  induction ops generalizing entry with
  | nil => rfl
  | cons op rest ih => exact ih (record entry op)

theorem allFit_append (state : MemoryState) (ops : List Op) (last : Op) :
    state.allFit (ops ++ [last]) =
      (state.allFit ops && (ops.foldl apply state).fits last) := by
  induction ops generalizing state with
  | nil => simp [allFit]
  | cons op rest ih => rw [List.cons_append, allFit, allFit, ih, List.foldl_cons, Bool.and_assoc]

/-- A network that was just built has empty books. -/
theorem build_accounted {localityCount : Nat} {runId : RunId} {limits : ProtocolLimits}
    {faults : List MemoryFault} (h : build localityCount runId limits faults = .ok state) :
    state.Accounted fun _ => ⟨[], [], []⟩ := by
  obtain ⟨_, -, h⟩ := bind_ok h
  split at h
  · cases h
  cases h
  refine ⟨⟨List.forall_mem_nil _, fun node parcel hmem => ?_, fun _ => rfl⟩,
    fun _ => ⟨.refl _, rfl⟩, fun _ => List.forall_mem_nil _, fun _ => List.nodup_nil⟩
  cases hmem

end MemoryState

end Hataori.Transport
