import Hataori.Transport.Submission

/-!
# Progress, flush and shutdown

The TCP and the MPI driver share the code of `progress`, `flush` and `shutdown` up to
what they drive and what they close. It is written once here, over the operations in
which they differ. `flush` also returns the events its drives generated, whether or not
it could queue them.
-/

namespace Hataori.Transport

/-- What a driver brings to the shared code. `ρ` is what the outside answers during one
    drive. -/
structure Backend (σ ρ : Type) where
  trySend : σ → Parcel → σ × Except TransportError SendTicket
  drive : σ → Nat → ρ → σ × List TransportEvent × Except TransportError Bool
  fail : σ → TransportError → σ
  pendingEvents : σ → List TransportEvent
  withPending : σ → List TransportEvent → σ
  pendingCapacity : σ → Nat
  outboundEmpty : σ → Bool
  failed : σ → Option TransportError
  isShutdown : σ → Bool
  /-- `shared.close()`. -/
  close : σ → σ
  /-- Whether input is left that makes no parcel yet. -/
  partialInput : σ → Bool
  /-- The state after `shutdown` threw away the buffers and emptied the pending events;
      with an error if input was left. -/
  stop : σ → Option TransportError → σ
  flushTimeout : String
  partialMessage : String

namespace Backend

variable {σ ρ : Type} (backend : Backend σ ρ)

/-- `TransportDriver::progress`. -/
def progress (driver : σ) (maxEvents : Nat) (round : ρ) :
    σ × List TransportEvent × Except TransportError Bool :=
  if backend.isShutdown driver then (driver, [], .error .shutdown)
  else
    match backend.failed driver with
    | some error => (driver, [], .error error)
    | none =>
      let events := (backend.pendingEvents driver).take maxEvents
      let driver := backend.withPending driver ((backend.pendingEvents driver).drop maxEvents)
      if events.length < maxEvents then
        match backend.drive driver (maxEvents - events.length) round with
        | (driver, more, .ok moved) =>
          (driver, events ++ more, .ok (moved || decide (0 < (events ++ more).length)))
        | (driver, more, .error error) => (backend.fail driver error, events ++ more, .error error)
      else (driver, events, .ok (decide (0 < events.length)))

/-- One round of the loop of `TransportDriver::flush`; `none` says that it goes on. -/
def flushRound (driver : σ) (round : ρ) :
    σ × List TransportEvent × Option (Except TransportError Unit) :=
  if backend.outboundEmpty driver then (driver, [], some (.ok ()))
  else
    match backend.drive driver (backend.pendingCapacity driver) round with
    | (driver, generated, .error error) =>
      (backend.fail driver error, generated, some (.error error))
    | (driver, generated, .ok _) =>
      if backend.pendingCapacity driver <
          (backend.pendingEvents driver).length + generated.length then
        (driver, generated, some (.error (.queueFull .control (backend.pendingCapacity driver))))
      else
        (backend.withPending driver (backend.pendingEvents driver ++ generated), generated, none)

/-- The loop of `TransportDriver::flush`; the deadline has passed after the last round. -/
def flushRounds (driver : σ) (round : ρ) :
    List ρ → σ × List TransportEvent × Except TransportError Unit
  | [] =>
    match backend.flushRound driver round with
    | (driver, generated, some result) => (driver, generated, result)
    | (driver, generated, none) => (driver, generated, .error (.timeout backend.flushTimeout))
  | next :: later =>
    match backend.flushRound driver round with
    | (driver, generated, some result) => (driver, generated, result)
    | (driver, generated, none) =>
      match flushRounds driver next later with
      | (driver, more, result) => (driver, generated ++ more, result)

/-- `TransportDriver::flush`. -/
def flush (driver : σ) (round : ρ) (later : List ρ) :
    σ × List TransportEvent × Except TransportError Unit :=
  match backend.failed driver with
  | some error => (driver, [], .error error)
  | none => backend.flushRounds driver round later

/-- `TransportDriver::shutdown` after its flush: the pending events are handed over. -/
def finish (driver : σ) : σ × List TransportEvent × Except TransportError Unit :=
  if backend.partialInput driver then
    (backend.stop driver (some (.peer backend.partialMessage)), backend.pendingEvents driver,
      .error (.peer backend.partialMessage))
  else
    (backend.stop driver none, backend.pendingEvents driver ++ [.shutdownComplete], .ok ())

/-- `TransportDriver::shutdown`. -/
def shutDown (driver : σ) (round : ρ) (later : List ρ) :
    σ × List TransportEvent × Except TransportError Unit :=
  let driver := backend.close driver
  if (backend.failed driver).isSome then backend.finish driver
  else
    match backend.flush driver round later with
    | (driver, _, .error error) => (driver, [], .error error)
    | (driver, _, .ok ()) => backend.finish driver

/-- The calls a driver and its handles take. -/
inductive Op (ρ : Type) where
  | trySend (parcel : Parcel)
  | progress (maxEvents : Nat) (round : ρ)
  | flush (round : ρ) (later : List ρ)
  | shutdown (round : ρ) (later : List ρ)

/-- The state a call leaves. -/
def apply (driver : σ) : Op ρ → σ
  | .trySend parcel => (backend.trySend driver parcel).1
  | .progress maxEvents round => (backend.progress driver maxEvents round).1
  | .flush round later => (backend.flush driver round later).1
  | .shutdown round later => (backend.shutDown driver round later).1

/-! ## What every call keeps -/

/-- What each operation of the driver keeps. -/
structure Keeps (inv : σ → Prop) : Prop where
  trySend : ∀ driver parcel, inv driver → inv (backend.trySend driver parcel).1
  drive : ∀ driver maxEvents round, inv driver → inv (backend.drive driver maxEvents round).1
  fail : ∀ driver error, inv driver → inv (backend.fail driver error)
  withPending : ∀ driver events, inv driver → inv (backend.withPending driver events)
  close : ∀ driver, inv driver → inv (backend.close driver)
  stop : ∀ driver error, inv driver → inv (backend.stop driver error)

namespace Keeps

variable {backend} {inv : σ → Prop} {driver : σ}

theorem progress (h : backend.Keeps inv) (hinv : inv driver) (maxEvents : Nat) (round : ρ) :
    inv (backend.progress driver maxEvents round).1 := by
  unfold Backend.progress
  split
  · exact hinv
  split
  · exact hinv
  dsimp only
  have hpending := h.withPending driver ((backend.pendingEvents driver).drop maxEvents) hinv
  split
  · have hdrive := h.drive _ (maxEvents - ((backend.pendingEvents driver).take maxEvents).length)
      round hpending
    generalize backend.drive _ _ round = step at hdrive ⊢
    obtain ⟨after, more, result⟩ := step
    cases result with
    | ok moved => exact hdrive
    | error error => exact h.fail after error hdrive
  · exact hpending

theorem flushRound (h : backend.Keeps inv) (hinv : inv driver) (round : ρ) :
    inv (backend.flushRound driver round).1 := by
  unfold Backend.flushRound
  split
  · exact hinv
  have hdrive := h.drive driver (backend.pendingCapacity driver) round hinv
  generalize backend.drive driver (backend.pendingCapacity driver) round = step at hdrive ⊢
  obtain ⟨after, generated, result⟩ := step
  cases result with
  | error error => exact h.fail after error hdrive
  | ok moved =>
    dsimp only
    split
    · exact hdrive
    · exact h.withPending after _ hdrive

theorem flushRounds (h : backend.Keeps inv) (hinv : inv driver) (round : ρ) (later : List ρ) :
    inv (backend.flushRounds driver round later).1 := by
  induction later generalizing driver round with
  | nil =>
    have hround := h.flushRound hinv round
    rw [Backend.flushRounds]
    generalize backend.flushRound driver round = step at hround ⊢
    obtain ⟨after, generated, result⟩ := step
    cases result <;> exact hround
  | cons next later ih =>
    have hround := h.flushRound hinv round
    rw [Backend.flushRounds]
    generalize backend.flushRound driver round = step at hround ⊢
    obtain ⟨after, generated, result⟩ := step
    cases result with
    | some result => exact hround
    | none => exact ih hround next

theorem flush (h : backend.Keeps inv) (hinv : inv driver) (round : ρ) (later : List ρ) :
    inv (backend.flush driver round later).1 := by
  unfold Backend.flush
  split
  · exact hinv
  · exact h.flushRounds hinv round later

theorem finish (h : backend.Keeps inv) (hinv : inv driver) : inv (backend.finish driver).1 := by
  unfold Backend.finish
  split <;> exact h.stop driver _ hinv

theorem shutDown (h : backend.Keeps inv) (hinv : inv driver) (round : ρ) (later : List ρ) :
    inv (backend.shutDown driver round later).1 := by
  have hclose := h.close driver hinv
  unfold Backend.shutDown
  dsimp only
  split
  · exact h.finish hclose
  · have hflush := h.flush hclose round later
    generalize backend.flush (backend.close driver) round later = step at hflush ⊢
    obtain ⟨after, generated, result⟩ := step
    cases result with
    | error error => exact hflush
    | ok done => exact h.finish hflush

theorem apply (h : backend.Keeps inv) (hinv : inv driver) (op : Op ρ) :
    inv (backend.apply driver op) := by
  cases op with
  | trySend parcel => exact h.trySend driver parcel hinv
  | progress maxEvents round => exact h.progress hinv maxEvents round
  | flush round later => exact h.flush hinv round later
  | shutdown round later => exact h.shutDown hinv round later

/-- The rule for sequences of calls. -/
theorem foldl (h : backend.Keeps inv) (hinv : inv driver) (ops : List (Op ρ)) :
    inv (ops.foldl backend.apply driver) := by
  induction ops generalizing driver with
  | nil => exact hinv
  | cons op rest ih => exact ih (h.apply hinv op)

end Keeps

end Backend

end Hataori.Transport
