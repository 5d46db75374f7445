import Hataori.Lib.Machine
import Hataori.Runtime.Error

/-!
# Preferred placement with a fallback

`RuntimeClient::spawn_preferred_colocated` sends an action to the place of an object;
`PlacementFuture` submits it once more, to the fallback place, when the error of the
first attempt says that the place was saturated. What the error says is read off its
category, and the category of a failure that came over the wire is read off its text.

The model follows one submission: the future and its promise at the requester, the
attempt at the preferred place, and the response between the two.
-/

namespace Hataori.Runtime

open Lib.Machine

/-! ## Categories of errors -/

/-- The words `placement_saturated` looks for in the text of a `RemoteAction`. -/
def saturationWords : List String :=
  ["ResourceExhausted", "saturated", "queue", "MigrationInProgress", "migration"]

/-- `placement_saturated`. -/
def placementSaturated : RuntimeError → Bool
  | .resourceExhausted _ _ => true
  | .placement _ _ => true
  | .remoteAction _ message => saturationWords.any (mentions message)
  | _ => false

/-- The words that make a failure a `Placement` error. -/
def placementWords : List String := ["placement", "admission", "actionqueue", "objectmailbox"]

/-- What `handle_message` makes of the text of a `Failure`. -/
def failureError (request : RequestId) (text : String) : RuntimeError :=
  let messageText := cap text
  let category := asciiLowercase messageText
  if placementWords.any (mentions category) then .placement request messageText
  else if mentions category "object" then .remoteObject request messageText
  else if mentions category "lease" || mentions category "transfer" then .lease request messageText
  else .remoteAction request messageText

/-- The kinds of response a request gets. -/
inductive Response where
  | success (payload : Segments)
  | failure (text : String)
  | cancelled
  | duplicateResultUnavailable
  | moved (object : ObjectId) (location : ObjectLocation)
  deriving DecidableEq, Repr

/-- `handle_message` on a response: what the pending call is completed with. -/
def Response.result (request : RequestId) : Response → Except RuntimeError Segments
  | .success payload => .ok payload
  | .failure text => .error (failureError request text)
  | .cancelled => .error (.cancelled request)
  | .duplicateResultUnavailable => .error (.duplicateResultUnavailable request)
  | .moved object location => .error (.moved object location)

/-- Whether `validate_shape` lets the response through: the text of a `Failure` has a limit. -/
def Response.decodes : Response → Bool
  | .failure text => decide (text.utf8ByteSize ≤ maxErrorBytes)
  | _ => true

/-- `ActionCompletion`, as far as its requester hears of it. -/
structure ActionCompletion where
  result : Except ActionError Segments
  cancelled : Bool

namespace ActionCompletion

/-- `handle_completion` of a local job. -/
def localResult (completion : ActionCompletion) (request : RequestId) :
    Except RuntimeError Segments :=
  if completion.cancelled then .error (.cancelled request)
  else match completion.result with
    | .ok payload => .ok payload
    | .error error => .error (.remoteAction request error.message)

/-- `handle_completion` of a job for another locality. -/
def response (completion : ActionCompletion) : Response :=
  if completion.cancelled then .cancelled
  else match completion.result with
    | .ok payload => .success payload
    | .error error => .failure error.message

end ActionCompletion

/-! ## The futures -/

/-- `PlacementFallback`. -/
inductive PlacementFallback where
  | any
  | place (place : Place)
  | reject
  deriving DecidableEq, Repr

/-- `RemoteObjectCall`: the fields a redirect reads. -/
structure RemoteObjectCall where
  object : ObjectId
  lastEpoch : Nat
  redirects : Nat
  maxRedirects : Nat
  deriving DecidableEq, Repr

/-- The texts the derived `Debug` gives, for the messages that quote one. -/
structure DebugTexts where
  object : ObjectId → String
  actionError : ActionError → String

/-- What one turn of the loop of a future's `poll` comes to. -/
inductive Turn (τ : Type) where
  | pending
  | ready (result : Except RuntimeError τ)
  | redirect (location : ObjectLocation)

/-- `RemoteFuture::poll` on what its promise holds. -/
def pollRemote {τ : Type} (texts : DebugTexts) (decode : Segments → Except ActionError τ) :
    Option (Except RuntimeError Segments) → Option (Except RuntimeError τ)
  | none => none
  | some (.error error) => some (.error error)
  | some (.ok segments) =>
    match decode segments with
    | .ok value => some (.ok value)
    | .error error =>
      some (.error (.protocol
        ("action output decode failed: action error: " ++ texts.actionError error)))

/-- A turn of the loop of `RemoteObjectCall::poll`, on the answer of its future. -/
def RemoteObjectCall.turn {τ : Type} (texts : DebugTexts) (call : RemoteObjectCall) :
    Option (Except RuntimeError τ) → Turn τ
  | none => .pending
  | some (.error (.moved object location)) =>
    if object ≠ call.object ∨ location.epoch ≤ call.lastEpoch then
      .ready (.error (.protocol ("invalid object redirect: expected " ++ texts.object call.object ++
        " after epoch " ++ toString call.lastEpoch ++ ", got " ++ texts.object object ++
        " at epoch " ++ toString location.epoch)))
    else if call.maxRedirects ≤ call.redirects then .ready (.error (.redirectLimit call.object))
    else .redirect location
  | some result => .ready result

/-- `PlacementState`. -/
inductive PlacementState where
  | preferred (call : RemoteObjectCall)
  | fallback
  | done
  deriving DecidableEq, Repr

/-! ## One submission -/

/-- How far an attempt has come at the preferred place. -/
inductive Attempt where
  /-- Under way, queued, or with a worker that has not called the action yet. -/
  | waiting
  /-- The user action has been called. -/
  | started
  /-- Answered, and the user action was not called. -/
  | refused
  /-- The user action has returned or panicked. -/
  | finished
  deriving DecidableEq, Repr

/-- A preferred-colocated submission. `ran` and `submitted` are for the statements: that an
    attempt has called the user action, and where the fallback has been sent. -/
structure PlacementCall where
  localId : LocalityId
  state : RuntimeState
  request : RequestId
  future : PlacementState
  fallback : PlacementFallback
  payload : Option Segments
  place : Place
  attempt : Attempt
  response : Option Response
  pending : Bool
  promise : Option (Except RuntimeError Segments)
  ran : Bool
  submitted : List (Place × Segments)

namespace PlacementCall

/-- The attempt goes to the requester's own locality. -/
def isLocal (call : PlacementCall) : Bool := decide (call.place.locality = call.localId)

/-- The pending entry is taken out and its promise completed. -/
def settle (call : PlacementCall) (result : Except RuntimeError Segments) : PlacementCall :=
  if call.pending then { call with pending := false, promise := some result } else call

/-- `handle_completion` of the attempt's job. -/
def complete (call : PlacementCall) (completion : ActionCompletion) : PlacementCall :=
  if call.isLocal then call.settle (completion.localResult call.request)
  else { call with response := some completion.response }

/-- `spawn_inner`: past the check of the state it answers `outcome`. -/
def spawn (call : PlacementCall) (outcome : Except RuntimeError Unit) : Except RuntimeError Unit :=
  match call.state.ensureRunning with
  | .error error => .error error
  | .ok () => outcome

/-- The place of the fallback. -/
def fallbackPlace (call : PlacementCall) : Option Place :=
  match call.fallback with
  | .any => some ⟨call.localId, ⟨0⟩⟩
  | .place place => some place
  | .reject => none

/-- `PlacementFuture::poll` on the result of the preferred future. `none` is the `expect` on
    the payload. -/
def conclude {τ : Type} (call : PlacementCall) (spawned : Except RuntimeError Unit) :
    Except RuntimeError τ → Option (PlacementCall × Option (Except RuntimeError τ))
  | .ok value => some ({ call with future := .done }, some (.ok value))
  | .error error =>
    if placementSaturated error then
      match call.fallbackPlace with
      | none => some ({ call with future := .done }, some (.error error))
      | some place =>
        match call.payload with
        | none => none
        | some payload =>
          match call.spawn spawned with
          | .ok () =>
            some ({ call with
              future := .fallback
              payload := none
              submitted := call.submitted ++ [(place, payload)] }, none)
          | .error error =>
            some ({ call with future := .done, payload := none }, some (.error error))
    else some ({ call with future := .done }, some (.error error))

/-- The new attempt after `spawn_encoded_retry`. -/
def resend (call : PlacementCall) (inner : RemoteObjectCall) (location : ObjectLocation) :
    PlacementCall :=
  { call with
    future := .preferred
      { inner with redirects := inner.redirects + 1, lastEpoch := location.epoch }
    place := location.place
    attempt := .waiting
    response := none
    pending := true
    promise := none }

/-- A poll takes the result out of the promise. -/
def takeResult (call : PlacementCall) : PlacementCall := { call with promise := none }

/-- A turn of the loops of `PlacementFuture::poll`. `retried` and `spawned` are what the two
    kinds of spawn answer, `later` what the fallback's future does; the second component
    is what the poll returns, if it returns in this turn. -/
def poll {τ : Type} (texts : DebugTexts) (decode : Segments → Except ActionError τ)
    (call : PlacementCall) (retried spawned : Except RuntimeError Unit)
    (later : Option (Except RuntimeError τ)) :
    Option (PlacementCall × Option (Except RuntimeError τ)) :=
  match call.future with
  | .preferred inner =>
    match inner.turn texts (pollRemote texts decode call.promise) with
    | .pending => some (call, none)
    | .ready result => call.takeResult.conclude spawned result
    | .redirect location =>
      match call.spawn retried with
      | .ok () => some (call.takeResult.resend inner location, none)
      | .error error => call.takeResult.conclude spawned (.error error)
  | .fallback =>
    match later with
    | none => some (call, none)
    | some result => some ({ call with future := .done }, some result)
  | .done =>
    some (call, some (.error (.protocol "placement future polled after completion")))

end PlacementCall

/-- Whether a response is a value. -/
def Response.isSuccess : Response → Bool
  | .success _ => true
  | _ => false

/-- What can happen to a submission. -/
inductive PlacementEvent (τ : Type) where
  /-- `dispatch_local` ends in an error. -/
  | refuseLocal (error : RuntimeError)
  /-- `handle_request` answers without submitting a job. -/
  | refuseRemote (response : Response)
  /-- A worker finds the job cancelled. -/
  | skip
  /-- A worker cannot decode the input of the action. -/
  | misdecode (error : ActionError)
  /-- A worker calls the user action. -/
  | start
  /-- The user action, or the encoding of its output, ends. -/
  | finish (result : Except ActionError Segments)
  /-- The response arrives at the requester. One that does not decode fails its runtime. -/
  | arrive
  /-- `expire_pending`. -/
  | expire
  /-- `SendFailed` for the request. -/
  | sendFailed (error : Transport.TransportError)
  /-- `Runtime::fail`. -/
  | fail (error : RuntimeError)
  /-- `shutdown`, or the drop of the runtime, drains the pending calls. -/
  | drain
  /-- `shutdown` has ended. -/
  | stop
  /-- A turn of the loops of `poll`. -/
  | poll (retried spawned : Except RuntimeError Unit) (later : Option (Except RuntimeError τ))

namespace PlacementCall

variable {τ : Type} {texts : DebugTexts} {decode : Segments → Except ActionError τ}

/-- The submission after an event, if the event can happen. -/
def step (texts : DebugTexts) (decode : Segments → Except ActionError τ) (call : PlacementCall) :
    PlacementEvent τ → Option PlacementCall
  | .refuseLocal error =>
    if call.attempt = .waiting ∧ call.isLocal = true then
      some ({ call with attempt := .refused }.settle (.error error))
    else none
  | .refuseRemote response =>
    if call.attempt = .waiting ∧ call.isLocal = false ∧ response.isSuccess = false then
      some { call with attempt := .refused, response := some response }
    else none
  | .skip =>
    if call.attempt = .waiting then
      some ({ call with attempt := .refused }.complete
        ⟨.error (.user "action cancelled before execution"), true⟩)
    else none
  | .misdecode error =>
    if call.attempt = .waiting then
      some ({ call with attempt := .refused }.complete ⟨.error error, false⟩)
    else none
  | .start =>
    if call.attempt = .waiting then some { call with attempt := .started, ran := true } else none
  | .finish result =>
    if call.attempt = .started then
      some ({ call with attempt := .finished }.complete ⟨result, false⟩)
    else none
  | .arrive =>
    match call.response with
    | none => none
    | some response =>
      if response.decodes then
        some ({ call with response := none }.settle (response.result call.request))
      else
        some ({ call with response := none, state := .failed }.settle
          (.error (.protocol "runtime wire error: ErrorPayload")))
  | .expire => some (call.settle (.error (.deadlineExceeded call.request)))
  | .sendFailed error =>
    if call.isLocal = false then some (call.settle (.error (.transport error))) else none
  | .fail error => some ({ call with state := .failed }.settle (.error error))
  | .drain => some ({ call with state := .draining }.settle (.error .shutdown))
  | .stop => if call.state = .draining then some { call with state := .stopped } else none
  | .poll retried spawned later => (call.poll texts decode retried spawned later).map Prod.fst

/-- What `spawn_preferred_colocated` returns. -/
structure Fresh (call : PlacementCall) : Prop where
  state : call.state = .running
  future : ∃ inner, call.future = .preferred inner
  payload : call.payload.isSome
  attempt : call.attempt = .waiting
  response : call.response = none
  pending : call.pending = true
  promise : call.promise = none
  ran : call.ran = false
  submitted : call.submitted = []

/-- The fallback goes out at most once, and only when the attempt was answered without the
    user action being called. -/
structure Respects (call : PlacementCall) : Prop where
  once : call.submitted.length ≤ 1
  refused : call.submitted ≠ [] → call.attempt = .refused ∧ call.ran = false

/-- The error text of an executed action is taken for a refusal of the place. A text that is too
    long does not get over the wire. -/
def misread (isLocal : Bool) (text : String) : Bool :=
  if isLocal then saturationWords.any (mentions text)
  else
    let category := asciiLowercase text
    decide (text.utf8ByteSize ≤ maxErrorBytes) &&
      (placementWords.any (mentions category) ||
        (!(["object", "lease", "transfer"].any (mentions category)) &&
          saturationWords.any (mentions text)))

/-- When the action ends in an error, there is no fallback or the text is not misread. -/
def ReadsRight (call : PlacementCall) : PlacementEvent τ → Prop
  | .finish (.error error) =>
    call.fallback = .reject ∨ misread call.isLocal error.message = false
  | _ => True

/-! ## Errors that make the future go on -/

/-- The error makes the future submit once more: to the fallback place or along a redirect. -/
def Diverts (call : PlacementCall) (error : RuntimeError) : Prop :=
  (placementSaturated error = true ∧ call.fallback ≠ .reject) ∨
    ∃ object location, error = .moved object location

theorem placementSaturated_failureError (request : RequestId) {text : String}
    (h : text.utf8ByteSize ≤ maxErrorBytes) :
    placementSaturated (failureError request text) = misread false text := by
  have hcap : cap text = text := if_pos h
  unfold failureError misread
  simp only [hcap, decide_eq_true h, Bool.true_and, Bool.false_eq_true, ↓reduceIte, List.any_cons,
    List.any_nil, Bool.or_false]
  split
  · next hplacement => simp only [placementSaturated, hplacement, Bool.true_or]
  · next hplacement =>
    rw [Bool.eq_false_iff.mpr hplacement, Bool.false_or]
    split
    · next hobject => simp [placementSaturated, hobject]
    · next hobject =>
      split
      · next hlease =>
        simp only [placementSaturated, hlease, Bool.or_true, Bool.not_true, Bool.false_and]
      · next hlease =>
        rw [Bool.eq_false_iff.mpr hobject, Bool.eq_false_iff.mpr hlease]
        simp only [placementSaturated, Bool.or_self, Bool.not_false, Bool.true_and]

theorem failureError_ne_moved (request : RequestId) (text : String) (object : ObjectId)
    (location : ObjectLocation) : failureError request text ≠ .moved object location := by
  unfold failureError
  dsimp only
  split
  · simp
  · split
    · simp
    · split <;> simp

/-! ## Every run -/

/-- The invariant: an error that makes the future go on is one of an attempt that was
    refused, or one that nothing can be submitted after. -/
structure Sound (call : PlacementCall) : Prop where
  ran : call.ran = true → call.attempt = .started ∨ call.attempt = .finished
  response : ∀ response error, call.response = some response → response.decodes = true →
    response.result call.request = .error error → call.Diverts error → call.attempt = .refused
  promise : ∀ error, call.promise = some (.error error) → call.Diverts error →
    call.attempt = .refused ∨ call.state ≠ .running
  unused : ∀ inner, call.future = .preferred inner → call.payload.isSome ∧ call.submitted = []
  pending : call.pending = true → call.promise = none ∧ ∃ inner, call.future = .preferred inner
  respects : call.Respects

variable {call next : PlacementCall}

theorem Fresh.sound (h : call.Fresh) : call.Sound where
  ran hran := by simp [h.ran] at hran
  response response error hresponse := by simp [h.response] at hresponse
  promise error hpromise := by simp [h.promise] at hpromise
  unused _ _ := ⟨h.payload, h.submitted⟩
  pending _ := ⟨h.promise, h.future⟩
  respects := ⟨by simp [h.submitted], fun hne => absurd h.submitted hne⟩

/-- The attempt goes on, or is refused, from a stage that no error speaks of. -/
theorem Sound.advance {attempt : Attempt} {ran : Bool} (h : call.Sound)
    (hbefore : call.attempt = .waiting ∨ call.attempt = .started)
    (hran : ran = true → attempt = .started ∨ attempt = .finished) :
    Sound { call with attempt := attempt, ran := ran } := by
  have hnot : call.attempt ≠ .refused := by
    rcases hbefore with hbefore | hbefore <;> simp [hbefore]
  refine ⟨hran, fun response error hresponse hdecodes herror hdiverts => ?_,
    fun error hpromise hdiverts => ?_, h.unused, h.pending, h.respects.once, fun hne => ?_⟩
  · exact absurd (h.response response error hresponse hdecodes herror hdiverts) hnot
  · exact .inr ((h.promise error hpromise hdiverts).resolve_left hnot)
  · exact absurd (h.respects.refused hne).1 hnot

/-- The place answers without having called the action. -/
theorem Sound.refuse (h : call.Sound) (hwaiting : call.attempt = .waiting) :
    Sound { call with attempt := .refused } :=
  h.advance (.inl hwaiting) fun hran => by
    rcases h.ran hran with hat | hat <;> simp [hwaiting] at hat

theorem Sound.settle {result : Except RuntimeError Segments} (h : call.Sound)
    (hresult : ∀ error, result = .error error → call.Diverts error →
      call.attempt = .refused ∨ call.state ≠ .running) : (call.settle result).Sound := by
  unfold PlacementCall.settle
  split
  · exact ⟨h.ran, h.response, fun error hpromise => hresult error (Option.some.inj hpromise),
      h.unused, fun hpending => (by cases hpending), h.respects.once, h.respects.refused⟩
  · exact h

theorem Sound.respond {response : Option Response} (h : call.Sound)
    (hresponse : ∀ found error, response = some found → found.decodes = true →
      found.result call.request = .error error → call.Diverts error → call.attempt = .refused) :
    Sound { call with response := response } :=
  ⟨h.ran, hresponse, h.promise, h.unused, h.pending, h.respects.once, h.respects.refused⟩

theorem Sound.leave {state : RuntimeState} (h : call.Sound) (hstate : state ≠ .running) :
    Sound { call with state := state } :=
  ⟨h.ran, h.response, fun _ _ _ => .inr hstate, h.unused, h.pending, h.respects.once,
    h.respects.refused⟩

/-- A completion of a refused attempt, or one whose error is read right. -/
theorem Sound.complete {completion : ActionCompletion} (h : call.Sound)
    (hread : call.attempt = .refused ∨ ∀ error, completion.result = .error error →
      call.fallback = .reject ∨ misread call.isLocal error.message = false) :
    (call.complete completion).Sound := by
  unfold PlacementCall.complete
  split
  · next hlocal =>
    refine h.settle fun error herror hdiverts => .inl ?_
    refine hread.resolve_right fun hread => ?_
    unfold ActionCompletion.localResult at herror
    split at herror
    · cases herror
      simp [Diverts, placementSaturated] at hdiverts
    · split at herror
      · cases herror
      · next found hfound =>
        cases herror
        rcases hread found hfound with hreject | hread
        · simp [Diverts, hreject] at hdiverts
        · rw [hlocal] at hread
          simp only [misread, ↓reduceIte] at hread
          simp [Diverts, placementSaturated, hread] at hdiverts
  · next hlocal =>
    refine h.respond fun response error hresponse hdecodes herror hdiverts => ?_
    refine hread.resolve_right fun hread => ?_
    cases hresponse
    unfold ActionCompletion.response at herror hdecodes
    split at herror
    · cases herror
      simp [Diverts, placementSaturated] at hdiverts
    · next hrun =>
      rw [if_neg hrun] at hdecodes
      split at herror
      · cases herror
      · next found hfound =>
        cases herror
        rw [hfound] at hdecodes
        have hshort : found.message.utf8ByteSize ≤ maxErrorBytes := of_decide_eq_true hdecodes
        rcases hdiverts with ⟨hsaturated, hreject⟩ | ⟨object, location, hmoved⟩
        · have hright := (hread found hfound).resolve_left hreject
          rw [Bool.eq_false_iff.mpr hlocal,
            ← placementSaturated_failureError call.request hshort] at hright
          rw [hright] at hsaturated
          cases hsaturated
        · exact failureError_ne_moved _ _ _ _ hmoved

theorem spawn_ok {outcome : Except RuntimeError Unit} (h : call.spawn outcome = .ok ()) :
    call.state = .running := by
  unfold spawn at h
  cases hstate : call.state <;> simp [hstate, RuntimeState.ensureRunning] at h ⊢

theorem fallbackPlace_eq_none : call.fallbackPlace = none ↔ call.fallback = .reject := by
  unfold fallbackPlace
  cases call.fallback <;> simp

/-- The future is over, or has gone to the fallback, with nothing submitted. -/
theorem Sound.done (h : call.Sound) (payload : Option Segments) (hpending : call.pending = false) :
    Sound { call with future := .done, payload := payload } :=
  ⟨h.ran, h.response, h.promise, fun _ hfuture => by simp at hfuture,
    fun hstill => by simp [hpending] at hstill, h.respects.once, h.respects.refused⟩

/-- `conclude` never runs into the `expect`, and a fallback it submits is for a refused attempt. -/
theorem Sound.conclude {inner : RemoteObjectCall} {spawned : Except RuntimeError Unit}
    {result : Except RuntimeError τ} (h : call.Sound) (hfuture : call.future = .preferred inner)
    (hpending : call.pending = false)
    (hresult : ∀ error, result = .error error → call.Diverts error →
      call.attempt = .refused ∨ call.state ≠ .running) :
    ∃ answer, call.conclude spawned result = some answer ∧ answer.1.Sound := by
  obtain ⟨hpayload, hunused⟩ := h.unused inner hfuture
  obtain ⟨payload, hpayload⟩ := Option.isSome_iff_exists.mp hpayload
  cases result with
  | ok value => exact ⟨_, rfl, h.done _ hpending⟩
  | error error =>
    unfold PlacementCall.conclude
    by_cases hsaturated : placementSaturated error = true
    · dsimp only
      rw [if_pos hsaturated]
      cases hplace : call.fallbackPlace with
      | none => exact ⟨_, rfl, h.done _ hpending⟩
      | some place =>
        have hreject : call.fallback ≠ .reject := fun hreject => by
          rw [fallbackPlace_eq_none.mpr hreject] at hplace
          cases hplace
        simp only [hpayload]
        cases hspawn : call.spawn spawned with
        | error failure => exact ⟨_, rfl, h.done _ hpending⟩
        | ok _ =>
          -- The runtime is running, so the error is that of a refused attempt.
          have hrefused : call.attempt = .refused :=
            (hresult error rfl (.inl ⟨hsaturated, hreject⟩)).resolve_right
              fun hstate => hstate (spawn_ok hspawn)
          have hran : call.ran = false := by
            cases hran : call.ran with
            | false => rfl
            | true => rcases h.ran hran with hat | hat <;> simp [hat] at hrefused
          refine ⟨_, rfl, h.ran, h.response, h.promise, fun _ hlater => by simp at hlater,
            fun hstill => by simp [hpending] at hstill, ?_, fun _ => ⟨hrefused, hran⟩⟩
          simp [hunused]
    · dsimp only
      rw [if_neg hsaturated]
      exact ⟨_, rfl, h.done _ hpending⟩

/-- A redirect comes from a refused attempt, so the next one starts afresh. -/
theorem Sound.resend {inner : RemoteObjectCall} (location : ObjectLocation) (h : call.Sound)
    (hfuture : call.future = .preferred inner) (hrefused : call.attempt = .refused) :
    (call.resend inner location).Sound := by
  obtain ⟨hpayload, hunused⟩ := h.unused inner hfuture
  refine ⟨fun hran => ?_, fun _ _ hresponse => (by cases hresponse),
    fun _ hpromise => (by cases hpromise), fun _ _ => ⟨hpayload, hunused⟩,
    fun _ => ⟨rfl, _, rfl⟩, by simp [PlacementCall.resend, hunused],
    fun hne => absurd hunused hne⟩
  rcases h.ran hran with hat | hat <;> simp [hat] at hrefused

/-- The error a turn returns is the one the promise was completed with, or one that is
    never taken for a refusal. -/
theorem turn_ready {inner : RemoteObjectCall} {promise : Option (Except RuntimeError Segments)}
    {error : RuntimeError} (hturn : inner.turn texts (pollRemote texts decode promise) =
      .ready (.error error)) (hdiverts : call.Diverts error) : promise = some (.error error) := by
  have hplain : ∀ found, call.Diverts found → (∀ message, found ≠ .protocol message) ∧
      ∀ object, found ≠ .redirectLimit object := by
    rintro found (⟨hsaturated, -⟩ | ⟨object, location, rfl⟩)
    · constructor <;> rintro _ rfl <;> simp [placementSaturated] at hsaturated
    · exact ⟨fun _ => by simp, fun _ => by simp⟩
  obtain ⟨hprotocol, hlimit⟩ := hplain error hdiverts
  match promise with
  | none => simp [pollRemote, RemoteObjectCall.turn] at hturn
  | some (.ok segments) =>
    simp only [pollRemote] at hturn
    cases hdecode : decode segments with
    | ok value => simp [hdecode, RemoteObjectCall.turn] at hturn
    | error failure =>
      simp only [hdecode, RemoteObjectCall.turn, Turn.ready.injEq, Except.error.injEq] at hturn
      exact absurd hturn.symm (hprotocol _)
  | some (.error found) =>
    simp only [pollRemote] at hturn
    unfold RemoteObjectCall.turn at hturn
    split at hturn
    · cases hturn
    · split at hturn
      · simp only [Turn.ready.injEq, Except.error.injEq] at hturn
        exact absurd hturn.symm (hprotocol _)
      · split at hturn
        · simp only [Turn.ready.injEq, Except.error.injEq] at hturn
          exact absurd hturn.symm (hlimit _)
        · cases hturn
    · next _ _ hsame =>
      simp only [Turn.ready.injEq] at hturn
      rw [hturn] at hsame
      cases hsame
      rfl

theorem turn_redirect {inner : RemoteObjectCall} {promise : Option (Except RuntimeError Segments)}
    {location : ObjectLocation}
    (hturn : inner.turn texts (pollRemote texts decode promise) = .redirect location) :
    ∃ object, promise = some (.error (.moved object location)) := by
  match promise with
  | none => simp [pollRemote, RemoteObjectCall.turn] at hturn
  | some (.ok segments) =>
    simp only [pollRemote] at hturn
    cases hdecode : decode segments <;> simp [hdecode, RemoteObjectCall.turn] at hturn
  | some (.error found) =>
    simp only [pollRemote] at hturn
    unfold RemoteObjectCall.turn at hturn
    split at hturn
    · cases hturn
    · next object there hsame =>
      simp only [Option.some.injEq, Except.error.injEq] at hsame
      subst hsame
      split at hturn
      · cases hturn
      · split at hturn
        · cases hturn
        · cases hturn
          exact ⟨object, rfl⟩
    · cases hturn

/-- A turn on an open promise is over at once. -/
theorem turn_none (inner : RemoteObjectCall) :
    inner.turn texts (pollRemote texts decode none) = .pending := rfl

/-- A turn of `poll` never runs into the `expect` and keeps the invariant. -/
theorem Sound.poll (retried spawned : Except RuntimeError Unit)
    (later : Option (Except RuntimeError τ)) (h : call.Sound) :
    ∃ answer, call.poll texts decode retried spawned later = some answer ∧ answer.1.Sound := by
  unfold PlacementCall.poll
  cases hfuture : call.future with
  | done => exact ⟨_, rfl, h⟩
  | fallback =>
    cases later with
    | none => exact ⟨_, rfl, h⟩
    | some result =>
      refine ⟨_, rfl, h.done _ (Bool.eq_false_iff.mpr fun hpending => ?_)⟩
      obtain ⟨-, inner, hinner⟩ := h.pending hpending
      rw [hinner] at hfuture
      cases hfuture
  | preferred inner =>
    dsimp only
    cases hpromise : call.promise with
    | none =>
      rw [turn_none]
      exact ⟨_, rfl, h⟩
    | some found =>
      have hpending : call.pending = false := by
        refine Bool.eq_false_iff.mpr fun hpending => ?_
        rw [(h.pending hpending).1] at hpromise
        cases hpromise
      have htaken : call.takeResult.Sound :=
        ⟨h.ran, h.response, fun _ hnone => (by cases hnone), h.unused,
          fun hstill => absurd hstill (by simp [takeResult, hpending]), h.respects.once,
          h.respects.refused⟩
      cases hturn : inner.turn texts (pollRemote texts decode (some found)) with
      | pending => exact ⟨_, rfl, h⟩
      | ready result =>
        refine htaken.conclude hfuture hpending fun error herror hdiverts => ?_
        subst herror
        exact h.promise error (hpromise.trans (turn_ready hturn hdiverts)) hdiverts
      | redirect location =>
        obtain ⟨object, hmoved⟩ := turn_redirect hturn
        have hrefused := h.promise _ (hpromise.trans hmoved) (.inr ⟨object, location, rfl⟩)
        cases hspawn : call.spawn retried with
        | ok _ =>
          exact ⟨_, rfl, htaken.resend location hfuture
            (hrefused.resolve_right fun hstate => hstate (spawn_ok hspawn))⟩
        | error error => exact htaken.conclude hfuture hpending fun _ _ _ => hrefused

theorem Sound.step {event : PlacementEvent τ} (h : call.Sound) (hread : call.ReadsRight event)
    (hstep : call.step texts decode event = some next) : next.Sound := by
  cases event with
  | refuseLocal error =>
    simp only [PlacementCall.step, Option.ite_none_right_eq_some, Option.some.injEq] at hstep
    obtain ⟨⟨hwaiting, -⟩, rfl⟩ := hstep
    exact (h.refuse hwaiting).settle fun _ _ _ => .inl rfl
  | refuseRemote response =>
    simp only [PlacementCall.step, Option.ite_none_right_eq_some, Option.some.injEq] at hstep
    obtain ⟨⟨hwaiting, -⟩, rfl⟩ := hstep
    exact (h.refuse hwaiting).respond fun _ _ _ _ _ _ => rfl
  | skip =>
    simp only [PlacementCall.step, Option.ite_none_right_eq_some, Option.some.injEq] at hstep
    obtain ⟨hwaiting, rfl⟩ := hstep
    exact (h.refuse hwaiting).complete (.inl rfl)
  | misdecode error =>
    simp only [PlacementCall.step, Option.ite_none_right_eq_some, Option.some.injEq] at hstep
    obtain ⟨hwaiting, rfl⟩ := hstep
    exact (h.refuse hwaiting).complete (.inl rfl)
  | start =>
    simp only [PlacementCall.step, Option.ite_none_right_eq_some, Option.some.injEq] at hstep
    obtain ⟨hwaiting, rfl⟩ := hstep
    exact h.advance (.inl hwaiting) fun _ => .inl rfl
  | finish result =>
    simp only [PlacementCall.step, Option.ite_none_right_eq_some, Option.some.injEq] at hstep
    obtain ⟨hstarted, rfl⟩ := hstep
    refine (h.advance (.inr hstarted) fun _ => .inr rfl).complete (.inr fun error herror => ?_)
    simp only at herror
    subst herror
    exact hread
  | arrive =>
    simp only [PlacementCall.step] at hstep
    cases hresponse : call.response with
    | none => simp [hresponse] at hstep
    | some response =>
      simp only [hresponse] at hstep
      have htaken : Sound { call with response := none } :=
        h.respond fun _ _ hnone => by cases hnone
      split at hstep
      · next hdecodes =>
        cases hstep
        refine htaken.settle fun error herror hdiverts => ?_
        exact .inl (h.response response error hresponse hdecodes herror hdiverts)
      · cases hstep
        exact (htaken.leave (by simp)).settle fun _ _ _ => .inr (by simp)
  | expire =>
    cases hstep
    refine h.settle fun error herror hdiverts => ?_
    cases herror
    simp [Diverts, placementSaturated] at hdiverts
  | sendFailed failure =>
    simp only [PlacementCall.step, Option.ite_none_right_eq_some, Option.some.injEq] at hstep
    obtain ⟨-, rfl⟩ := hstep
    refine h.settle fun error herror hdiverts => ?_
    cases herror
    simp [Diverts, placementSaturated] at hdiverts
  | fail error =>
    cases hstep
    exact (h.leave (by simp)).settle fun _ _ _ => .inr (by simp)
  | drain =>
    cases hstep
    exact (h.leave (by simp)).settle fun _ _ _ => .inr (by simp)
  | stop =>
    simp only [PlacementCall.step, Option.ite_none_right_eq_some, Option.some.injEq] at hstep
    obtain ⟨-, rfl⟩ := hstep
    exact h.leave (by simp)
  | poll retried spawned later =>
    obtain ⟨answer, hpoll, hsound⟩ : ∃ answer,
      call.poll texts decode retried spawned later = some answer ∧ answer.1.Sound := h.poll _ _ _
    simp only [PlacementCall.step, hpoll, Option.map_some, Option.some.injEq] at hstep
    exact hstep ▸ hsound

/-- On a saturation error a running requester submits the fallback. -/
theorem poll_saturated {inner : RemoteObjectCall} {error : RuntimeError} {place : Place}
    {payload : Segments} (hfuture : call.future = .preferred inner)
    (hpromise : call.promise = some (.error error)) (hsaturated : placementSaturated error = true)
    (hplace : call.fallbackPlace = some place) (hpayload : call.payload = some payload)
    (hstate : call.state = .running) :
    call.step texts decode (.poll (.ok ()) (.ok ()) none) = some { call.takeResult with
      future := .fallback
      payload := none
      submitted := call.submitted ++ [(place, payload)] } := by
  have hturn : inner.turn texts (pollRemote texts decode (some (.error error))) =
      .ready (.error error) := by
    cases error with
    | moved object location => simp [placementSaturated] at hsaturated
    | _ => rfl
  have hspawn : call.takeResult.spawn (.ok ()) = .ok () := by
    simp [spawn, takeResult, hstate, RuntimeState.ensureRunning]
  have htakenPlace : call.takeResult.fallbackPlace = some place := hplace
  have htakenPayload : call.takeResult.payload = some payload := hpayload
  simp only [PlacementCall.step, PlacementCall.poll, hfuture, hpromise, hturn,
    PlacementCall.conclude, if_pos hsaturated, htakenPlace, htakenPayload, hspawn, Option.map_some]
  rfl

/-- A misread error reaches the promise as one that says the place was saturated. -/
theorem finish_misread (texts : DebugTexts) (decode : Segments → Except ActionError τ)
    {error : ActionError} (hstarted : call.attempt = .started)
    (hpending : call.pending = true) (hmisread : misread call.isLocal error.message = true) :
    ∃ more response failure, placementSaturated failure = true ∧
      exec (PlacementCall.step texts decode) call (.finish (.error error) :: more) =
        some { call with
          attempt := .finished
          response := response
          pending := false
          promise := some (.error failure) } := by
  have hfinish : call.step texts decode (.finish (.error error)) =
      some ({ call with attempt := .finished }.complete ⟨.error error, false⟩) := by
    simp [PlacementCall.step, hstarted]
  cases hlocal : call.isLocal with
  | true =>
    rw [hlocal] at hmisread
    refine ⟨[], call.response, .remoteAction call.request error.message, hmisread, ?_⟩
    have hdone : PlacementCall.complete { call with attempt := .finished } ⟨.error error, false⟩ =
        { call with
          attempt := .finished
          pending := false
          promise := some (.error (.remoteAction call.request error.message)) } := by
      unfold PlacementCall.complete
      rw [if_pos (show PlacementCall.isLocal { call with attempt := .finished } = true from hlocal)]
      simp [settle, hpending, ActionCompletion.localResult]
    rw [exec_cons, hfinish, hdone]
    rfl
  | false =>
    rw [hlocal] at hmisread
    have hshort : error.message.utf8ByteSize ≤ maxErrorBytes :=
      of_decide_eq_true (Bool.and_eq_true_iff.mp hmisread).1
    have hdecodes : (Response.failure error.message).decodes = true := decide_eq_true hshort
    rw [← placementSaturated_failureError call.request hshort] at hmisread
    refine ⟨[.arrive], none, failureError call.request error.message, hmisread, ?_⟩
    have hdone : PlacementCall.complete { call with attempt := .finished } ⟨.error error, false⟩ =
        { call with attempt := .finished, response := some (.failure error.message) } := by
      unfold PlacementCall.complete
      rw [if_neg (show ¬PlacementCall.isLocal { call with attempt := .finished } = true by
        rw [show PlacementCall.isLocal { call with attempt := .finished } = false from hlocal]
        exact Bool.false_ne_true)]
      rfl
    rw [exec_cons, hfinish, hdone]
    simp [exec_cons, PlacementCall.step, settle, hpending, Response.result, hdecodes]

/-- The error of an executed action is misread: the fallback goes out although the action ran. -/
theorem Sound.repeats {error : ActionError} (h : call.Sound) (hstarted : call.attempt = .started)
    (hpending : call.pending = true) (hstate : call.state = .running)
    (hfallback : call.fallback ≠ .reject) (hmisread : misread call.isLocal error.message = true) :
    ∃ more after, exec (PlacementCall.step texts decode) call
      (.finish (.error error) :: more) = some after ∧ ¬after.Respects := by
  obtain ⟨-, inner, hfuture⟩ := h.pending hpending
  obtain ⟨payload, hpayload⟩ := Option.isSome_iff_exists.mp (h.unused inner hfuture).1
  obtain ⟨place, hplace⟩ : ∃ place, call.fallbackPlace = some place :=
    Option.ne_none_iff_exists'.mp fun hnone => hfallback (fallbackPlace_eq_none.mp hnone)
  obtain ⟨more, response, failure, hsaturated, hsettled⟩ :=
    finish_misread texts decode hstarted hpending hmisread
  generalize hafter : ({ call with
    attempt := .finished
    response := response
    pending := false
    promise := some (.error failure) } : PlacementCall) = settled at hsettled
  obtain ⟨after, hpoll, hattempt, hsubmitted⟩ : ∃ after,
      settled.step texts decode (.poll (.ok ()) (.ok ()) none) = some after ∧
        after.attempt = .finished ∧ after.submitted ≠ [] := by
    subst hafter
    exact ⟨_, poll_saturated hfuture rfl hsaturated hplace hpayload hstate, rfl, by simp⟩
  refine ⟨more ++ [.poll (.ok ()) (.ok ()) none], after, ?_, fun hrespects => ?_⟩
  · rw [← List.cons_append, exec_append, hsettled, Option.bind_some, exec_cons, hpoll]
    rfl
  · rw [(hrespects.refused hsubmitted).1] at hattempt
    cases hattempt

/-- The fallback of a preferred-colocated submission repeats no work in a run in which every
    error of an executed action is read right; and where one is misread while its call is
    pending, the fallback can go out after the action ran. -/
theorem fallback_after_refusal (texts : DebugTexts) (decode : Segments → Except ActionError τ)
    (start : PlacementCall) (hfresh : start.Fresh) :
    (∀ events call, exec (PlacementCall.step texts decode) start events = some call →
      Along (PlacementCall.step texts decode) ReadsRight start events → call.Respects) ∧
    ∀ events call error, exec (PlacementCall.step texts decode) start events = some call →
      Along (PlacementCall.step texts decode) ReadsRight start events →
      call.attempt = .started → call.pending = true → call.state = .running →
      ¬call.ReadsRight (.finish (.error error) : PlacementEvent τ) →
      ∃ more after, exec (PlacementCall.step texts decode) call
        (.finish (.error error) :: more) = some after ∧ ¬after.Respects := by
  have hsound : ∀ events call, exec (PlacementCall.step texts decode) start events = some call →
      Along (PlacementCall.step texts decode) ReadsRight start events → call.Sound :=
    fun events call hrun hread =>
      exec_invariant Sound (fun _ _ _ h hread hstep => h.step hread hstep) hfresh.sound hread hrun
  refine ⟨fun events call hrun hread => (hsound events call hrun hread).respects, ?_⟩
  intro events call error hrun hread hstarted hpending hstate hwrong
  obtain ⟨hfallback, hmisread⟩ := not_or.mp hwrong
  exact (hsound events call hrun hread).repeats hstarted hpending hstate hfallback
    (by simpa using hmisread)

end PlacementCall

/-! ### A submission whose object is at another locality -/

namespace PlacementCall.Sample

def texts : DebugTexts := ⟨fun _ => "ObjectId", fun _ => "ActionError"⟩

def decode (segments : Segments) : Except ActionError Segments := .ok segments

def object : ObjectId := ⟨⟨1, u128_one⟩, 1, u128_one⟩

/-- Any place will do as the fallback. -/
def submission : PlacementCall where
  localId := ⟨0⟩
  state := .running
  request := ⟨⟨0⟩, 1, u64_one⟩
  future := .preferred ⟨object, 1, 0, 4⟩
  fallback := .any
  payload := some [[7]]
  place := ⟨⟨1⟩, ⟨0⟩⟩
  attempt := .waiting
  response := none
  pending := true
  promise := none
  ran := false
  submitted := []

theorem submission_fresh : submission.Fresh :=
  ⟨rfl, ⟨_, rfl⟩, rfl, rfl, rfl, rfl, rfl, rfl, rfl⟩

/-- The action runs and ends in an error, and the requester polls. -/
def run (text : String) : List (PlacementEvent Segments) :=
  [.start, .finish (.error (.user text)), .arrive, .poll (.ok ()) (.ok ()) none]

theorem run_reads {text : String} (h : misread false text = false) :
    Along (step texts decode) ReadsRight submission (run text) := by
  refine ⟨trivial, fun started hstart => ?_⟩
  cases hstart
  exact ⟨.inr h, fun _ _ => ⟨trivial, fun _ _ => ⟨trivial, fun _ _ => trivial⟩⟩⟩

theorem fallback_after_refusal_sample :
    (∃ call, exec (step texts decode) submission (run "division by zero") = some call ∧
      call.ran = true ∧ call.Respects) ∧
    ∃ more after, exec (step texts decode) { submission with attempt := .started, ran := true }
      (.finish (.error (.user "no queue named builds")) :: more) = some after ∧
        ¬after.Respects := by
  have hclaims := fallback_after_refusal texts decode submission submission_fresh
  constructor
  · obtain ⟨call, hrun, hran⟩ : ∃ call, exec (step texts decode) submission
        (run "division by zero") = some call ∧ call.ran = true :=
      Option.map_eq_some_iff.mp (by decide +kernel)
    exact ⟨call, hrun, hran, hclaims.1 _ call hrun (run_reads (by decide +kernel))⟩
  · refine hclaims.2 [.start] _ (.user "no queue named builds") rfl ?_ rfl rfl rfl ?_
    · exact ⟨trivial, fun _ _ => trivial⟩
    · rintro (hreject | hright)
      · cases hreject
      · revert hright
        decide +kernel

/-- A remote action reports that a queue does not exist, and is submitted a second time. -/
theorem fallback_after_execution :
    ¬∀ start : PlacementCall, start.Fresh → ∀ events call,
      exec (step texts decode) start events = some call → call.Respects := by
  intro h
  obtain ⟨call, hrun, hends⟩ : ∃ call, exec (step texts decode) submission
      (run "no queue named builds") = some call ∧
        (call.attempt, call.submitted) = (.finished, [(⟨⟨0⟩, ⟨0⟩⟩, [[7]])]) :=
    Option.map_eq_some_iff.mp (by decide +kernel)
  obtain ⟨hattempt, hsubmitted⟩ := Prod.mk.inj hends
  have hrefused := ((h submission submission_fresh _ call hrun).refused (by simp [hsubmitted])).1
  rw [hattempt] at hrefused
  cases hrefused

end PlacementCall.Sample

end Hataori.Runtime
