import Hataori.Transport.Bootstrap
import Hataori.Transport.TcpEvents
import Hataori.Transport.MpiEvents
import Hataori.Transport.MemoryEvents

/-!
# No event is lost

What the callers of a driver have been told by the time a shutdown succeeds, for each of
the three transports: every ticket once, and every parcel that was taken off the wire.
Two places throw events away: a flush whose round overflows the pending queue, and the
clearing of the queues at the end of an in-memory shutdown.
-/

namespace Hataori.Transport

open Hataori.Runtime

/-- Every ticket was reported by exactly one event, and every decoded parcel handed out
    exactly once. -/
structure Log.Complete (log : Log) : Prop where
  reported : ∀ ticket ∈ log.issued, (resolvedTickets log.handed).count ticket = 1
  received : (incomingParcels log.handed).Perm log.decoded

/-- The log before the first call. -/
def Log.empty : Log := ⟨[], [], []⟩

theorem Log.complete_of_perm {log : Log} (hnodup : log.issued.Nodup)
    (htickets : log.issued.Perm (resolvedTickets log.handed))
    (hparcels : log.decoded.Perm (incomingParcels log.handed)) : log.Complete := by
  refine ⟨fun ticket hmem => ?_, hparcels.symm⟩
  rw [← htickets.count_eq]
  exact List.count_eq_one_of_mem hnodup hmem

namespace Backend

variable {σ ρ : Type} {backend : Backend σ ρ} {inv : σ → Prop} {outstanding : σ → List SendTicket}
  {nextTicket : σ → Nat}

theorem allFit_append (backend : Backend σ ρ) (driver : σ) (ops : List (Op ρ)) (last : Op ρ) :
    backend.allFit driver (ops ++ [last]) =
      (backend.allFit driver ops && backend.fits (ops.foldl backend.apply driver) last) := by
  induction ops generalizing driver with
  | nil => simp [allFit]
  | cons op rest ih => rw [List.cons_append, allFit, allFit, ih, List.foldl_cons, Bool.and_assoc]

/-- The books of a lawful driver are complete when a shutdown succeeds. -/
theorem Lawful.complete (h : backend.Lawful inv outstanding nextTicket) {driver : σ}
    (hinv : inv driver) (hpending : backend.pendingEvents driver = [])
    (hout : outstanding driver = []) {ops : List (Op ρ)} {round : ρ} {later : List ρ}
    (hfits : backend.allFit driver (ops ++ [.shutdown round later]) = true)
    (hfinal : backend.failed
      (backend.shutDown (ops.foldl backend.apply driver) round later).1 = none)
    (hok : (backend.shutDown (ops.foldl backend.apply driver) round later).2.2 = .ok ()) :
    ((ops ++ [Op.shutdown round later]).foldl backend.record (driver, Log.empty)).2.Complete := by
  rw [allFit_append, Bool.and_eq_true] at hfits
  have halive : backend.failed (ops.foldl backend.apply driver) = none := by
    cases hfailed : backend.failed (ops.foldl backend.apply driver) with
    | none => rfl
    | some error =>
      have hstays := h.failed_apply (by rw [hfailed]; rfl) (.shutdown round later)
      rw [Backend.apply, hfinal] at hstays
      cases hstays
  have hstart : backend.Accounted outstanding nextTicket driver .empty :=
    ⟨by rw [hpending]; rfl, by rw [hpending, hout]; exact .refl _, List.forall_mem_nil _,
      List.nodup_nil⟩
  obtain ⟨hmiddle, hbooks⟩ := hstart.run h hinv hfits.1 halive
  rw [List.foldl_append, List.foldl_cons, List.foldl_nil]
  rw [← show (ops.foldl backend.record (driver, Log.empty)).1 = ops.foldl backend.apply driver from
    record_fst _ _] at halive hok hfinal hfits
  obtain ⟨-, hdone, hempty⟩ := hbooks.shutDown h hmiddle halive hfits.2 hfinal
  obtain ⟨hnothing, hnone⟩ := hempty hok
  have htickets := hdone.tickets
  have hparcels := hdone.decoded
  rw [hnothing, hnone, List.append_nil, List.append_nil] at htickets
  rw [hnothing, List.append_nil] at hparcels
  generalize ops.foldl backend.record (driver, Log.empty) = entry at *
  unfold Backend.record
  simp only [Backend.issued, Backend.handed, Backend.generated, halive, Option.isSome_none,
    Bool.false_eq_true, if_false, List.append_nil]
  exact Log.complete_of_perm hdone.nodup htickets (by rw [hparcels])

end Backend

theorem TcpDriver.fresh_kempt (config : TcpConfig) (capabilities : UInt64) :
    (TcpDriver.fresh config capabilities).Kempt :=
  ⟨⟨fun _ => rfl, fun _ _ => rfl⟩, fun _ _ _ => ⟨rfl, rfl⟩⟩

theorem TcpDriver.fresh_outstanding (config : TcpConfig) (capabilities : UInt64) :
    (TcpDriver.fresh config capabilities).outstanding = [] :=
  List.flatMap_eq_nil_iff.mpr fun _ _ => rfl

theorem MpiDriver.fresh_kempt (rank size : Nat) (hello : Hello) (limits : ProtocolLimits)
    (capabilities : UInt64) : (MpiDriver.fresh rank size hello limits capabilities).Kempt :=
  ⟨fun _ => rfl, fun _ _ => rfl⟩

theorem MpiDriver.fresh_outstanding (rank size : Nat) (hello : Hello) (limits : ProtocolLimits)
    (capabilities : UInt64) :
    (MpiDriver.fresh rank size hello limits capabilities).outstanding = [] :=
  List.flatMap_eq_nil_iff.mpr fun _ _ => rfl

theorem mpiConnect_ok {mainThread : Bool} {rank size : Nat} {hello : Hello}
    {gathered : List (List UInt8)} {driver : MpiDriver}
    (h : mpiConnect mainThread rank size hello gathered = .ok driver) :
    ∃ limits capabilities, driver = MpiDriver.fresh rank size hello limits capabilities := by
  unfold mpiConnect at h
  dsimp only at h
  by_cases hthread : mainThread = false
  · rw [if_pos hthread] at h
    cases h
  rw [if_neg hthread] at h
  obtain ⟨limits, -, h⟩ := bind_ok h
  by_cases hrank : size = 0 ∨ size ≤ rank
  · rw [if_pos hrank] at h
    cases h
  rw [if_neg hrank] at h
  obtain ⟨_, -, h⟩ := bind_ok h
  obtain ⟨⟨agreed, capabilities⟩, -, h⟩ := bind_ok h
  cases h
  exact ⟨agreed, capabilities, rfl⟩

/-- The books of a node are complete when its shutdown succeeds. -/
theorem MemoryState.Accounted.complete {state : MemoryState} {logs : MemoryState.Logs}
    (h : state.Accounted logs) {ops : List MemoryState.Op} {localId : LocalityId} {rounds : Nat}
    (hfits : state.allFit (ops ++ [.shutdown localId rounds]) = true)
    (hok : ((ops.foldl MemoryState.apply state).shutDown localId rounds).2.2.2 = .ok ()) :
    (((ops ++ [MemoryState.Op.shutdown localId rounds]).foldl MemoryState.record (state, logs)).2
      localId.get.toNat).Complete := by
  rw [MemoryState.allFit_append, Bool.and_eq_true] at hfits
  have hbooks := h.run hfits.1
  rw [← MemoryState.record_fst (state, logs)] at hfits hok
  rw [List.foldl_append, List.foldl_cons, List.foldl_nil]
  have hlast := hbooks.record hfits.2
  obtain ⟨hsystem, hwaiting⟩ := (hbooks.shutDown localId rounds hfits.2).2 hok
  obtain ⟨hdecoded, htickets⟩ := hlast.books localId.get.toNat
  have hsame : (MemoryState.record (ops.foldl MemoryState.record (state, logs))
      (.shutdown localId rounds)).1 =
      ((ops.foldl MemoryState.record (state, logs)).1.shutDown localId rounds).1 := rfl
  rw [hsame, hwaiting, List.append_nil] at hdecoded
  rw [hsame, hsystem] at htickets
  refine Log.complete_of_perm (hlast.nodup _) ?_ hdecoded
  rw [htickets]
  simp [resolvedTickets]

/-! ## Sessions on the three transports -/

/-- A driver that was opened, the calls made on it and on its handles, and the shutdown
    that ends them; in memory the calls of every locality of the network, and the
    locality that is shut down. -/
inductive Session where
  | tcp (config : TcpConfig) (bootstrap : Bootstrap) (driver : TcpDriver)
      (ops : List TcpDriver.Op) (round : TcpDriver.Round) (later : List TcpDriver.Round)
  | mpi (mainThread : Bool) (rank size : Nat) (hello : Hello) (gathered : List (List UInt8))
      (driver : MpiDriver) (ops : List (Backend.Op MpiRound)) (round : MpiRound)
      (later : List MpiRound)
  | memory (localityCount : Nat) (runId : RunId) (limits : ProtocolLimits)
      (faults : List MemoryFault) (state : MemoryState) (ops : List MemoryState.Op)
      (localId : LocalityId) (rounds : Nat)

namespace Session

/-- The session starts with what `connect` or `build` returned. -/
def Opened : Session → Prop
  | .tcp config bootstrap driver _ _ _ => connect config bootstrap = .ok driver
  | .mpi mainThread rank size hello gathered driver _ _ _ =>
    mpiConnect mainThread rank size hello gathered = .ok driver
  | .memory localityCount runId limits faults state _ _ _ =>
    MemoryState.build localityCount runId limits faults = .ok state

/-- No round of a flush overflows the pending queue, and no in-memory shutdown clears a
    queue that still holds something. -/
def fits : Session → Bool
  | .tcp _ _ driver ops round later =>
    TcpDriver.backend.allFit driver (ops ++ [.shutdown round later])
  | .mpi _ _ _ _ _ driver ops round later =>
    MpiDriver.backend.allFit driver (ops ++ [.shutdown round later])
  | .memory _ _ _ _ state ops localId rounds =>
    state.allFit (ops ++ [.shutdown localId rounds])

/-- The driver has not failed, and the shutdown returns `Ok`. -/
def Closes : Session → Prop
  | .tcp _ _ driver ops round later =>
    ((ops.foldl TcpDriver.apply driver).shutDown round later).1.failed = none ∧
      ((ops.foldl TcpDriver.apply driver).shutDown round later).2.2 = .ok ()
  | .mpi _ _ _ _ _ driver ops round later =>
    ((ops.foldl MpiDriver.backend.apply driver).shutDown true round later).1.failed = none ∧
      ((ops.foldl MpiDriver.backend.apply driver).shutDown true round later).2.2 = .ok ()
  | .memory _ _ _ _ state ops localId rounds =>
    ((ops.foldl MemoryState.apply state).shutDown localId rounds).2.2.2 = .ok ()

/-- What the callers have seen by the time the shutdown returns. -/
def log : Session → Log
  | .tcp _ _ driver ops round later =>
    ((ops ++ [Backend.Op.shutdown round later]).foldl TcpDriver.backend.record
      (driver, Log.empty)).2
  | .mpi _ _ _ _ _ driver ops round later =>
    ((ops ++ [Backend.Op.shutdown round later]).foldl MpiDriver.backend.record
      (driver, Log.empty)).2
  | .memory _ _ _ _ state ops localId rounds =>
    ((ops ++ [MemoryState.Op.shutdown localId rounds]).foldl MemoryState.record
      (state, fun _ => Log.empty)).2 localId.get.toNat

end Session

/-- What the callers of a driver have been told by the time a shutdown succeeds is
    complete, if none of its calls takes a branch that throws events away. -/
theorem no_event_lost (session : Session) (hopened : session.Opened)
    (hfits : session.fits = true) (hcloses : session.Closes) : session.log.Complete := by
  cases session with
  | tcp config bootstrap driver ops round later =>
    obtain ⟨⟨capabilities, rfl⟩, -⟩ := connect_ok hopened
    exact TcpDriver.lawful.complete (TcpDriver.fresh_kempt config capabilities) rfl
      (TcpDriver.fresh_outstanding config capabilities) hfits hcloses.1 hcloses.2
  | mpi mainThread rank size hello gathered driver ops round later =>
    obtain ⟨limits, capabilities, rfl⟩ := mpiConnect_ok hopened
    exact MpiDriver.lawful.complete (MpiDriver.fresh_kempt rank size hello limits capabilities) rfl
      (MpiDriver.fresh_outstanding rank size hello limits capabilities) hfits hcloses.1 hcloses.2
  | memory localityCount runId limits faults state ops localId rounds =>
    exact (MemoryState.build_accounted hopened).complete hfits hcloses

/-- A round in which every stream takes the whole frame of a sample parcel. -/
def sampleWritten : TcpDriver.Round :=
  fun _ _ => ⟨.wrote (wireFrame (sampleParcel [])).length, []⟩

/-- Sends of one parcel, each of them flushed. -/
def sampleSends (count : Nat) : List TcpDriver.Op :=
  (List.replicate count
    [Backend.Op.trySend (sampleParcel []), .flush sampleWritten [sampleWritten]]).flatten

/-- A round of the MPI driver in which nothing arrives. -/
def sampleSilence : MpiRound := ⟨true, fun _ => []⟩

/-- The network `build` makes for two localities. -/
def sampleNetwork : MemoryState where
  runId := ⟨1, u128_one⟩
  limits := (sampleConfig 1).hello.limits
  tick := 0
  nextTicket := 1
  faults := []
  delayed := []
  members := 2
  nodes := fun _ => .default
  stopped := fun _ => false

/-- Sends of a TCP member, each of them flushed, and its shutdown. -/
def sampleTcp (count : Nat) : Session :=
  .tcp (sampleConfig 1) sampleBootstrap (sampleDriver 1) (sampleSends count) sampleWritten []

/-- A send of an MPI rank and its shutdown. -/
def sampleMpi : Session :=
  .mpi true 1 2 (sampleConfig 1).hello (List.replicate 2 (helloBytes (sampleConfig 1).hello))
    (MpiDriver.fresh 1 2 (sampleConfig 1).hello (sampleConfig 1).hello.limits 0)
    [.trySend (sampleParcel [])] sampleSilence [sampleSilence]

/-- A send of an in-memory locality, one more call and its shutdown. -/
def sampleMemory (op : MemoryState.Op) : Session :=
  .memory 2 ⟨1, u128_one⟩ (sampleConfig 1).hello.limits [] sampleNetwork
    [.trySend ⟨1⟩ (sampleParcel []), op] ⟨1⟩ 0

set_option maxRecDepth 10000 in
/-- Twelve sends fill the pending queue of a TCP member, and the shutdown reports them
    all; so do an MPI rank and an in-memory locality that asks for its events. -/
theorem no_event_lost_samples :
    (sampleTcp 12).log.Complete ∧ sampleMpi.log.Complete ∧
      (sampleMemory (.progress ⟨1⟩ 8)).log.Complete := by
  refine ⟨?_, ?_, ?_⟩
  · exact no_event_lost (sampleTcp 12) (sample_connected.connected 1 (by decide))
      (by decide +kernel) ⟨by decide +kernel, by decide +kernel⟩
  · exact no_event_lost sampleMpi rfl (by decide +kernel) ⟨by decide +kernel, by decide +kernel⟩
  · exact no_event_lost (sampleMemory (.progress ⟨1⟩ 8)) rfl (by decide +kernel)
      (show _ = Except.ok () by decide +kernel)

set_option maxRecDepth 10000 in
/-- A thirteenth send makes its flush fail with `QueueFull`, and its ticket is never
    reported; nor is that of a parcel whose in-memory sender flushes and shuts down. -/
theorem ticket_never_reported :
    ((sampleTcp 13).Opened ∧ (sampleTcp 13).Closes ∧ ¬(sampleTcp 13).log.Complete) ∧
      (sampleMemory (.flush ⟨1⟩ 0)).Opened ∧ (sampleMemory (.flush ⟨1⟩ 0)).Closes ∧
      ¬(sampleMemory (.flush ⟨1⟩ 0)).log.Complete := by
  refine ⟨⟨sample_connected.connected 1 (by decide), ⟨by decide +kernel, by decide +kernel⟩, ?_⟩,
    rfl, show _ = Except.ok () by decide +kernel, ?_⟩
  · intro hcomplete
    exact absurd (hcomplete.reported ⟨13⟩ (by decide +kernel)) (by decide +kernel)
  · intro hcomplete
    exact absurd (hcomplete.reported ⟨1⟩ (by decide +kernel)) (by decide +kernel)

end Hataori.Transport
