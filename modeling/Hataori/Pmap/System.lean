import Hataori.Lib.Machine
import Hataori.Pmap.Root

/-!
# The composed protocol

The root with one link per remote rank. An action names who moves and fixes
every choice the code leaves to its surroundings: which channel a probe or a
receive sees, whether a payload decodes, what the callbacks return, when a
local batch is finished. A probe may miss a message that is on its way, so
`probeNone` is always possible. `comm.abort` on any rank ends the world.
-/

namespace Hataori.Pmap

open Hataori.Scheduler Lib.Maps

variable {T U : Type}

/-- What the environment decides for one step of the root. -/
inductive RootAction (U : Type) where
  /-- The code up to the next probe, callback or exit. -/
  | next
  /-- The probe of `root_loop` finds a message of `source`. -/
  | serve (source : Nat) (fault : Option String)
  | probeNone
  /-- The callbacks of the root's own batch return. -/
  | compute (outcomes : List (Except String U))
  /-- The blocking receive of `root_loop` returns a message of `source`. -/
  | receive (source : Nat) (fault : Option String)
  /-- One polling round of `hybrid_root_loop`: what `try_recv` yields if it is
      called and what the probe finds. -/
  | poll (finished : Option (List (Except String U))) (probed : Option Nat)
      (fault : Option String)
  deriving DecidableEq, Repr

/-- One step of the composed system. -/
inductive Action (U : Type) where
  | worker (rank : Nat) (action : WorkerAction U)
  | root (action : RootAction U)
  deriving DecidableEq, Repr

/-- The root and its links. -/
structure System (T U : Type) where
  root : Root T U
  links : Map Nat (Link T U)

/-- The link of a worker that aborted. -/
def Link.isAborted (link : Link T U) : Bool :=
  match link.phase with
  | .aborted => true
  | _ => false

/-- The root aborted. -/
def Root.isAborted (root : Root T U) : Bool :=
  match root.phase with
  | .aborted => true
  | _ => false

/-- The message the root sends back, if any. -/
def Link.answer (link : Link T U) : Option (Message T U) → Link T U
  | none => link
  | some message =>
    { link with down := link.down ++ [message], answers := link.answers + 1 }

namespace System

/-- The state in which every rank enters its loop. -/
def start (call : Call T) : Except SchedulerError (System T U) :=
  match Coordinator.newWithPrefetch call.rootRank (call.remotes.map Int.ofNat) call.items
      call.batchSize call.prefetch with
  | .error error => .error error
  | .ok scheduler => .ok
      { root :=
          { scheduler := scheduler
            phase := if call.hybrid then .iterating none none true else .top
            localKey := noErrorKey
            localError := none }
        links := call.remotes.foldr (fun rank links => links.insert rank Link.start) ∅ }

/-- Some rank called `comm.abort`. -/
def aborted (s : System T U) : Bool :=
  s.root.isAborted || (values s.links).any Link.isAborted

/-- The root takes the next message of `source` and goes to `after`. -/
def receiveFrom (call : Call T) (s : System T U) (source : Nat) (fault : Option String)
    (after : RootPhase T U) : Option (System T U) :=
  match s.links.lookup source with
  | none => none
  | some link =>
    match link.up with
    | [] => none
    | message :: rest =>
      match s.root.processRemoteHeader call source fault message with
      | .error halt => some
          { root := { s.root with phase := halt.phase }
            links := s.links.insert source { link with up := rest } }
      | .ok (root, reply) => some
          { root := { root with phase := after }
            links := s.links.insert source ({ link with up := rest }.answer reply) }

/-- The root completes its own batch and goes to `after`. -/
def completeWith (call : Call T) (s : System T U) (outcome : LocalBatchOutcome U)
    (after : Root T U → Root T U) : System T U :=
  match s.root.completeLocal call outcome with
  | .error halt => { s with root := { s.root with phase := halt.phase } }
  | .ok root => { s with root := after root }

/-- The part of a polling round after `try_recv` and the probe. -/
def pollEvent (call : Call T) (s : System T U) (receiver : Option (Batch T))
    (pendingLocal : Option (LocalBatchOutcome U)) (preferLocal : Bool) (probed : Option Nat)
    (fault : Option String) : Option (System T U) :=
  match chooseRootEvent pendingLocal.isSome probed.isSome preferLocal, pendingLocal, probed with
  | (.local, preferLocal), some outcome, _ =>
    some (s.completeWith call outcome
      fun root => { root with phase := .iterating none none preferLocal })
  | (.remote, preferLocal), _, some source =>
    s.receiveFrom call source fault (.iterating receiver pendingLocal preferLocal)
  | (_, preferLocal), _, _ =>
    some { s with root := { s.root with phase := .iterating receiver pendingLocal preferLocal } }

/-- One polling round. `try_recv` is called only with a running local batch and
    no outcome waiting; a world of one rank never probes. -/
def pollRound (call : Call T) (s : System T U) (receiver : Option (Batch T))
    (pendingLocal : Option (LocalBatchOutcome U)) (preferLocal : Bool)
    (finished : Option (List (Except String U))) (probed : Option Nat) (fault : Option String) :
    Option (System T U) :=
  let probed := if call.worldSize = 1 then none else probed
  match pendingLocal, receiver, finished with
  | none, some batch, some outcomes =>
    if outcomes.length = batch.items.length then
      s.pollEvent call receiver (some (Root.localOutcome batch outcomes)) preferLocal probed fault
    else none
  | _, _, _ => s.pollEvent call receiver pendingLocal preferLocal probed fault

/-- One step of the root. -/
def rootStep (call : Call T) (s : System T U) (action : RootAction U) : Option (System T U) :=
  match s.root.phase, action with
  | .top, .next => some { s with root := s.root.topStep call }
  | .serving served, .serve source fault => s.receiveFrom call source fault (.serving (served + 1))
  | .serving served, .probeNone => some { s with root := s.root.probeNone call served }
  | .computing batch, .compute outcomes =>
    if outcomes.length = batch.items.length then
      some (s.completeWith call (Root.localOutcome batch outcomes)
        fun root => root.afterRootBatch call)
    else none
  | .blocked, .receive source fault => s.receiveFrom call source fault .top
  | .iterating receiver pendingLocal preferLocal, .next =>
    some { s with root := s.root.iterate receiver pendingLocal preferLocal }
  | .polling receiver pendingLocal preferLocal, .poll finished probed fault =>
    s.pollRound call receiver pendingLocal preferLocal finished probed fault
  | _, _ => none

/-- One step of the worker of `rank`. -/
def workerStep (call : Call T) (s : System T U) (rank : Nat) (action : WorkerAction U) :
    Option (System T U) :=
  match s.links.lookup rank with
  | none => none
  | some link =>
    match link.step call.prefetch rank call.worldSize action with
    | none => none
    | some next => some { s with links := s.links.insert rank next }

/-- One step of the composed system; an aborted world takes none. -/
def step (call : Call T) (s : System T U) (action : Action U) : Option (System T U) :=
  if s.aborted then none
  else
    match action with
    | .worker rank action => s.workerStep call rank action
    | .root action => s.rootStep call action

end System

end Hataori.Pmap
