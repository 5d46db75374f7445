import Mathlib.Data.List.Infix
import Hataori.Transport.Submission

/-!
# Errors

`hataori-runtime/src/error.rs`: what a handler can fail with, what the runtime
answers or fails with, and the cap on error texts. The variants of
`RuntimeError` are those some modelled function produces.
-/

namespace Hataori.Runtime

/-- `ActionError`. -/
inductive ActionError where
  | codec (message : String)
  | user (message : String)
  | panic
  deriving DecidableEq, Repr

/-- `ActionError::message`. -/
def ActionError.message : ActionError → String
  | .codec message => message
  | .user message => message
  | .panic => "action handler panicked"

/-- `ResourceKind`. -/
inductive ResourceKind where
  | pendingCalls
  | actionQueue
  | dedupEntries
  | dedupBytes
  | sendTickets
  | objectMailbox
  | localityLeases
  | placementTickets
  | migrations
  deriving DecidableEq, Repr

/-- `RuntimeState`. -/
inductive RuntimeState where
  | created
  | bootstrapping
  | running
  | draining
  | stopped
  | failed
  deriving DecidableEq, Repr

/-- `RuntimeError`. -/
inductive RuntimeError where
  | invalidLimits (message : String)
  | invalidState (expected actual : RuntimeState)
  | unknownAction (action : ActionId)
  | unknownDomain (domain : DomainId)
  | unknownObjectType (objectType : ObjectTypeId)
  | objectCollected (object : ObjectId)
  | staleObjectLocation (object : ObjectId)
  | objectAction (message : String)
  | migrationInProgress (object : ObjectId)
  | migration (request : RequestId) (message : String)
  | migrationCommittedFailure (object : ObjectId) (message : String)
  | moved (object : ObjectId) (location : ObjectLocation)
  | redirectLimit (object : ObjectId)
  | resourceExhausted (resource : ResourceKind) (limit : Nat)
  | deadlineExceeded (request : RequestId)
  | cancelled (request : RequestId)
  | remoteAction (request : RequestId) (message : String)
  | remoteObject (request : RequestId) (message : String)
  | placement (request : RequestId) (message : String)
  | lease (request : RequestId) (message : String)
  | duplicateResultUnavailable (request : RequestId)
  | protocol (message : String)
  | transport (error : Transport.TransportError)
  | peerFailed (peer : LocalityId)
  | shutdown
  | shutdownTimeout
  | invalidDeadline
  | retainedResources
  deriving DecidableEq, Repr

/-- `Shared::ensure_running`. -/
def RuntimeState.ensureRunning : RuntimeState → Except RuntimeError Unit
  | .running => .ok ()
  | .draining => .error .shutdown
  | .stopped => .error .shutdown
  | state => .error (.invalidState .running state)

/-! ## Texts -/

/-- `MAX_ERROR_BYTES`. -/
def maxErrorBytes : Nat := 4096

/-- `str::contains`. -/
def mentions (text word : String) : Bool := decide (word.toList <:+: text.toList)

/-- `str::to_ascii_lowercase`. -/
def asciiLowercase (text : String) : String := text.map Char.toLower

/-- The characters that start within the first `room` bytes and end there too. -/
def fitting : Nat → List Char → List Char
  | _, [] => []
  | room, c :: rest => if c.utf8Size ≤ room then c :: fitting (room - c.utf8Size) rest else []

/-- `cap`: a text is cut at the last character boundary within the limit. -/
def cap (message : String) : String :=
  if message.utf8ByteSize ≤ maxErrorBytes then message
  else String.ofList (fitting maxErrorBytes message.toList)

theorem utf8ByteSize_cons (c : Char) (rest : List Char) :
    (String.ofList (c :: rest)).utf8ByteSize = c.utf8Size + (String.ofList rest).utf8ByteSize := by
  rw [← List.singleton_append, String.ofList_append, String.utf8ByteSize_append,
    ← String.singleton_eq_ofList, String.utf8ByteSize_singleton]

theorem utf8ByteSize_fitting (room : Nat) (text : List Char) :
    (String.ofList (fitting room text)).utf8ByteSize ≤ room := by
  induction text generalizing room with
  | nil => exact Nat.zero_le _
  | cons c rest ih =>
    rw [fitting]
    split
    · have hrest := ih (room - c.utf8Size)
      rw [utf8ByteSize_cons]
      omega
    · exact Nat.zero_le _

/-- A capped text is within the limit. -/
theorem utf8ByteSize_cap (message : String) : (cap message).utf8ByteSize ≤ maxErrorBytes := by
  unfold cap
  split
  · assumption
  · exact utf8ByteSize_fitting _ _

end Hataori.Runtime
