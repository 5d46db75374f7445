import Hataori.Runtime.Error

/-!
# The batch controller

`hataori-algorithms/src/batch.rs` and `options.rs`: a `pmap` over a runtime splits its
items into batches, keeps a bounded number of them in flight and puts their replies
together. The future of a batch is known by the batch it was submitted for; what a
submission and each poll of a future answer are arguments. The polls also return what they
did to the batches, in order.
-/

namespace Hataori.Algorithms

open Hataori.Runtime

/-- `LocalMode`. -/
inductive LocalMode where
  | sequential
  | outer
  | inner
  deriving DecidableEq, Repr

/-- `AlgorithmError`. -/
inductive AlgorithmError where
  | invalidOptions (message : String)
  | inputShape (message : String)
  | protocol (message : String)
  | callback (index : Nat) (message : String)
  | runtime (error : RuntimeError)
  deriving DecidableEq, Repr

/-- `PmapOptions`. -/
structure PmapOptions where
  batchSize : Nat
  localMode : LocalMode
  prefetch : Bool
  deadline : Nat
  domain : DomainId
  inflightLimit : Nat
  deriving DecidableEq, Repr

namespace PmapOptions

/-- `PmapOptions::validate`. -/
def validate (options : PmapOptions) : Except AlgorithmError Unit :=
  if options.batchSize = 0 ∨ 1048576 < options.batchSize then
    .error (.invalidOptions "batch_size must be between 1 and 1048576")
  else if options.deadline = 0 then .error (.invalidOptions "deadline must be nonzero")
  else .ok ()

/-- `PmapOptions::with_targets`. -/
def withTargets (options : PmapOptions) (targets : Nat) : Except AlgorithmError PmapOptions :=
  if targets = 0 then .error (.inputShape "membership must be nonzero")
  else
    let limit := targets * (1 + if options.prefetch then 1 else 0)
    if 2 ^ 64 ≤ limit then .error (.invalidOptions "in-flight batch limit overflow")
    else .ok { options with inflightLimit := limit }

end PmapOptions

/-- `BatchAction`. -/
structure BatchAction (A : Type) where
  start : Nat
  mode : LocalMode
  items : List A
  deriving DecidableEq, Repr

/-- `ItemReply`. -/
inductive ItemReply (U : Type) where
  | ok (value : U)
  | err (message : String)
  deriving DecidableEq, Repr

/-- `BatchReply`. -/
structure BatchReply (U : Type) where
  start : Nat
  items : List (ItemReply U)
  deriving DecidableEq, Repr

variable {A U : Type}

/-- What the batch handler makes of one item; an error is its text. -/
def applyHandler (handler : A → Except String U) (item : A) : ItemReply U :=
  match handler item with
  | .ok value => .ok value
  | .error message => .err message

/-- The handler `register_pmap_action` registers. Collecting a parallel map keeps the
    order, so the mode makes no difference to the reply. -/
def batchHandler (handler : A → Except String U) (batch : BatchAction A) : BatchReply U :=
  ⟨batch.start, batch.items.map (applyHandler handler)⟩

/-- `ControllerStats`. -/
structure ControllerStats where
  itemCount : Nat
  batchCount : Nat
  peakInFlight : Nat
  placementSubmissions : Nat
  deriving DecidableEq, Repr

/-- `PmapFuture`; a slot is the batch its future was submitted for. -/
structure PmapFuture (A U : Type) where
  pending : List (Nat × List A)
  slots : List (BatchAction A)
  options : PmapOptions
  outputs : List (Option U)
  firstError : Option (Nat × String)
  stats : ControllerStats
  done : Bool
  deriving DecidableEq, Repr

/-- The loop of `build` that cuts the items from `start` on into chunks. A chunk takes at
    least one item, so the number of items is enough fuel. -/
def cut (batchSize : Nat) : Nat → Nat → List A → List (Nat × List A)
  | 0, _, _ => []
  | fuel + 1, start, items =>
    if items.isEmpty then []
    else
      let chunk := items.take batchSize
      (start, chunk) :: cut batchSize fuel (start + chunk.length) (items.drop batchSize)

/-- `build`. -/
def build (items : List A) (options : PmapOptions) : Except AlgorithmError (PmapFuture A U) := do
  options.validate
  let pending := cut options.batchSize items.length 0 items
  return {
    pending := pending
    slots := []
    options := options
    outputs := List.replicate items.length none
    firstError := none
    stats := ⟨items.length, pending.length, 0, 0⟩
    done := false }

/-- `pmap` and its siblings, with the number of places they spread the batches over. -/
def pmap (items : List A) (options : PmapOptions) (targets : Nat) :
    Except AlgorithmError (PmapFuture A U) := do
  let options ← options.withTargets targets
  build items options

/-- What a poll of a batch's future answers. -/
inductive Answer (U : Type) where
  | pending
  | failed (error : RuntimeError)
  | replied (reply : BatchReply U)
  deriving DecidableEq, Repr

/-- What the outside answers during one poll of the `PmapFuture`: to each submission, and
    to the n-th poll of a batch's future. -/
structure Environment (A U : Type) where
  submit : BatchAction A → Option RuntimeError
  answer : Nat → BatchAction A → Answer U

/-- What a poll does to a batch: it is submitted, or its reply is taken. -/
inductive Event (A : Type) where
  | submitted (batch : BatchAction A)
  | answered (batch : BatchAction A)
  deriving DecidableEq, Repr

/-- `Vec::swap_remove`. -/
def swapRemove {α : Type} (items : List α) (index : Nat) : List α :=
  match items.getLast? with
  | none => items
  | some last => (items.set index last).dropLast

/-- The loop over the items of a reply, from index `index` on. -/
def applyItems : Nat → List (ItemReply U) → List (Option U) → Option (Nat × String) →
    Except AlgorithmError (List (Option U) × Option (Nat × String))
  | _, [], outputs, firstError => .ok (outputs, firstError)
  | index, .ok value :: rest, outputs, firstError =>
    match outputs[index]? with
    | some none => applyItems (index + 1) rest (outputs.set index (some value)) firstError
    | _ => .error (.protocol "invalid batch result index")
  | index, .err message :: rest, outputs, firstError =>
    match firstError with
    | none => applyItems (index + 1) rest outputs (some (index, message))
    | some (old, text) =>
      if index < old then applyItems (index + 1) rest outputs (some (index, message))
      else applyItems (index + 1) rest outputs (some (old, text))

namespace PmapFuture

/-- The first loop of `poll`: batches are submitted while there is room. -/
def fill (env : Environment A U) : List (Nat × List A) → PmapFuture A U →
    PmapFuture A U × List (Event A) × Except AlgorithmError Unit
  | [], future => ({ future with pending := [] }, [], .ok ())
  | (start, items) :: rest, future =>
    if future.slots.length < future.options.inflightLimit then
      let batch : BatchAction A := ⟨start, future.options.localMode, items⟩
      match env.submit batch with
      | some error =>
        ({ future with pending := rest, done := true }, [], .error (.runtime error))
      | none =>
        let slots := future.slots ++ [batch]
        match fill env rest
            { future with
              slots := slots
              stats :=
                { future.stats with
                  peakInFlight := max future.stats.peakInFlight slots.length
                  placementSubmissions := future.stats.placementSubmissions + 1 } } with
        | (future, trace, result) => (future, .submitted batch :: trace, result)
    else ({ future with pending := (start, items) :: rest }, [], .ok ())

/-- The second loop of `poll`, at slot `index` with `remaining` slots to go and after
    `polls` polls of futures. It returns whether a reply came. -/
def scan (env : Environment A U) : Nat → Nat → Nat → PmapFuture A U →
    PmapFuture A U × List (Event A) × Nat × Except AlgorithmError Bool
  | 0, _, polls, future => (future, [], polls, .ok false)
  | remaining + 1, index, polls, future =>
    match future.slots[index]? with
    | none => (future, [], polls, .ok false)
    | some slot =>
      match env.answer polls slot with
      | .pending => scan env remaining (index + 1) (polls + 1) future
      | .failed error =>
        ({ future with done := true }, [], polls + 1, .error (.runtime error))
      | .replied reply =>
        let removed := { future with slots := swapRemove future.slots index }
        match applyItems reply.start reply.items removed.outputs removed.firstError with
        | .error error => ({ removed with done := true }, [.answered slot], polls + 1, .error error)
        | .ok (outputs, firstError) =>
          match scan env remaining index (polls + 1)
              { removed with outputs := outputs, firstError := firstError } with
          | (future, trace, polls, .error error) =>
            (future, .answered slot :: trace, polls, .error error)
          | (future, trace, polls, .ok _) =>
            (future, .answered slot :: trace, polls, .ok true)

/-- The values of the outputs, all of which have to be there. -/
def collectOutputs : List (Option U) → Except AlgorithmError (List U)
  | [] => .ok []
  | none :: _ => .error (.protocol "missing batch result")
  | some value :: rest =>
    match collectOutputs rest with
    | .error error => .error error
    | .ok values => .ok (value :: values)

/-- The end of `poll` when every batch is answered. -/
def finish (future : PmapFuture A U) :
    PmapFuture A U × Except AlgorithmError (List U × ControllerStats) :=
  match future.firstError with
  | some (index, message) =>
    ({ future with done := true, firstError := none }, .error (.callback index message))
  | none =>
    match collectOutputs future.outputs with
    | .error error => ({ future with done := true }, .error error)
    | .ok values =>
      ({ future with done := true, outputs := future.outputs.map fun _ => none },
        .ok (values, future.stats))

/-- The outer loop of `poll`, after `polls` polls of futures; `none` is `Poll::Pending`. A
    round that goes on has answered a batch, so the batches left are enough fuel. -/
def rounds (env : Environment A U) : Nat → Nat → PmapFuture A U →
    PmapFuture A U × List (Event A) × Option (Except AlgorithmError (List U × ControllerStats))
  | 0, _, future => (future, [], none)
  | fuel + 1, polls, future =>
    match fill env future.pending future with
    | (future, trace, .error error) => (future, trace, some (.error error))
    | (future, filled, .ok ()) =>
      match scan env future.slots.length 0 polls future with
      | (future, scanned, _, .error error) =>
        (future, filled ++ scanned, some (.error error))
      | (future, scanned, polls, .ok progress) =>
        if future.pending.isEmpty && future.slots.isEmpty then
          match future.finish with
          | (future, result) => (future, filled ++ scanned, some result)
        else if progress then
          match rounds env fuel polls future with
          | (future, trace, result) => (future, filled ++ scanned ++ trace, result)
        else (future, filled ++ scanned, none)

/-- `PmapFuture::poll`. -/
def poll (env : Environment A U) (future : PmapFuture A U) :
    PmapFuture A U × List (Event A) × Option (Except AlgorithmError (List U × ControllerStats)) :=
  rounds env (future.pending.length + future.slots.length + 1) 0 future

/-- A future polled again and again until it is ready. -/
def run : List (Environment A U) → PmapFuture A U →
    PmapFuture A U × List (Event A) × Option (Except AlgorithmError (List U × ControllerStats))
  | [], future => (future, [], none)
  | env :: later, future =>
    match future.poll env with
    | (future, trace, some result) => (future, trace, some result)
    | (future, trace, none) =>
      match run later future with
      | (future, more, result) => (future, trace ++ more, result)

end PmapFuture

end Hataori.Algorithms
