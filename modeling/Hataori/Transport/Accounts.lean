import Mathlib.Data.List.Perm.Basic
import Hataori.Transport.Backend

/-!
# Every event is accounted for

Along a sequence of calls, what was handed to the caller together with what is pending
holds each decoded parcel once, and with the sends still under way each issued ticket
once: for every driver whose operations obey the laws below, as long as no flush has to
drop the events of a round.
-/

namespace Hataori.Transport

/-- What the callers of a driver and its handles have seen, and the parcels its drives
    have taken off the wire. -/
structure Log where
  issued : List SendTicket
  handed : List TransportEvent
  decoded : List Parcel

/-- What two services in a row resolve, each by events handed over and events put aside. -/
theorem resolved_trans {before middle after : List SendTicket}
    {events extra more aside : List TransportEvent}
    (hfirst : before.Perm (resolvedTickets events ++ (resolvedTickets extra ++ middle)))
    (hsecond : middle.Perm (resolvedTickets (more ++ aside) ++ after)) :
    before.Perm (resolvedTickets (events ++ more) ++ (resolvedTickets (extra ++ aside) ++ after)) := by
  refine hfirst.trans ?_
  rw [resolvedTickets_append] at hsecond ⊢
  rw [resolvedTickets_append, List.append_assoc]
  refine List.Perm.append_left _ ?_
  refine (List.Perm.append_left _ hsecond).trans ?_
  simp only [← List.append_assoc]
  exact (List.perm_append_comm.append_right _).append_right _

namespace Backend

variable {σ ρ : Type} (backend : Backend σ ρ)

/-- The tickets a call returns. -/
def issued (driver : σ) : Op ρ → List SendTicket
  | .trySend parcel => ((backend.trySend driver parcel).2.toOption).toList
  | _ => []

/-- The events a call hands to its caller. -/
def handed (driver : σ) : Op ρ → List TransportEvent
  | .progress maxEvents round => (backend.progress driver maxEvents round).2.1
  | .shutdown round later => (backend.shutDown driver round later).2.1
  | _ => []

/-- The events the drive of a `progress` call generates. -/
def driven (driver : σ) (maxEvents : Nat) (round : ρ) : List TransportEvent :=
  if backend.isShutdown driver || (backend.failed driver).isSome ||
      !decide ((backend.pendingEvents driver).length < maxEvents) then []
  else
    (backend.drive (backend.withPending driver [])
      (maxEvents - (backend.pendingEvents driver).length) round).2.1

/-- The events the drives of a call generate. -/
def generated (driver : σ) : Op ρ → List TransportEvent
  | .trySend _ => []
  | .progress maxEvents round => backend.driven driver maxEvents round
  | .flush round later => (backend.flush driver round later).2.1
  | .shutdown round later =>
    if (backend.failed driver).isSome then []
    else (backend.flush (backend.close driver) round later).2.1

/-- One call, written into the log. -/
def record (entry : σ × Log) (op : Op ρ) : σ × Log :=
  (backend.apply entry.1 op,
    { issued := entry.2.issued ++ backend.issued entry.1 op
      handed := entry.2.handed ++ backend.handed entry.1 op
      decoded := entry.2.decoded ++ incomingParcels (backend.generated entry.1 op) })

/-- The events of the round fit the pending queue. -/
def roundFits (driver : σ) (round : ρ) : Bool :=
  backend.outboundEmpty driver ||
    match backend.drive driver (backend.pendingCapacity driver) round with
    | (_, _, .error _) => true
    | (after, generated, .ok _) =>
      decide ((backend.pendingEvents after).length + generated.length ≤
        backend.pendingCapacity after)

/-- No round of a flush takes the branch that drops its events. -/
def flushFits (driver : σ) (round : ρ) : List ρ → Bool
  | [] => backend.roundFits driver round
  | next :: later =>
    backend.roundFits driver round &&
      match backend.flushRound driver round with
      | (_, _, some _) => true
      | (after, _, none) => flushFits after next later

/-- No flush in the call drops events. -/
def fits (driver : σ) : Op ρ → Bool
  | .flush round later => backend.flushFits driver round later
  | .shutdown round later => backend.flushFits (backend.close driver) round later
  | _ => true

/-- Every call of a sequence fits, in the state it is made in. -/
def allFit (driver : σ) : List (Op ρ) → Bool
  | [] => true
  | op :: rest => backend.fits driver op && allFit (backend.apply driver op) rest

/-- The laws the accounting rests on: what is outstanding is resolved once, by an event
    that is handed over or queued, and nothing else touches the pending events. -/
structure Lawful (inv : σ → Prop) (outstanding : σ → List SendTicket) (nextTicket : σ → Nat) :
    Prop where
  refused : ∀ driver parcel after error, inv driver →
    backend.trySend driver parcel = (after, .error error) →
    inv after ∧ backend.pendingEvents after = backend.pendingEvents driver ∧
      (outstanding after).Perm (outstanding driver) ∧ nextTicket driver ≤ nextTicket after
  sent : ∀ driver parcel after ticket, inv driver →
    backend.trySend driver parcel = (after, .ok ticket) →
    inv after ∧ backend.pendingEvents after = backend.pendingEvents driver ∧
      (outstanding after).Perm (ticket :: outstanding driver) ∧
      ticket.get = nextTicket driver ∧ nextTicket after = nextTicket driver + 1
  drive : ∀ driver maxEvents round after events moved, inv driver →
    backend.drive driver maxEvents round = (after, events, .ok moved) →
    inv after ∧ nextTicket after = nextTicket driver ∧
      ∃ extra, backend.pendingEvents after = backend.pendingEvents driver ++ extra ∧
        incomingParcels extra = [] ∧
        (outstanding driver).Perm
          (resolvedTickets events ++ (resolvedTickets extra ++ outstanding after))
  withPending : ∀ driver events, inv driver →
    inv (backend.withPending driver events) ∧
      backend.pendingEvents (backend.withPending driver events) = events ∧
      outstanding (backend.withPending driver events) = outstanding driver ∧
      nextTicket (backend.withPending driver events) = nextTicket driver
  close : ∀ driver, inv driver →
    inv (backend.close driver) ∧
      backend.pendingEvents (backend.close driver) = backend.pendingEvents driver ∧
      outstanding (backend.close driver) = outstanding driver ∧
      nextTicket (backend.close driver) = nextTicket driver
  stop : ∀ driver, inv driver → outstanding driver = [] →
    inv (backend.stop driver none) ∧ backend.pendingEvents (backend.stop driver none) = [] ∧
      outstanding (backend.stop driver none) = [] ∧
      nextTicket (backend.stop driver none) = nextTicket driver
  drained : ∀ driver, inv driver → backend.outboundEmpty driver = true → outstanding driver = []
  failedSend : ∀ driver parcel,
    backend.failed (backend.trySend driver parcel).1 = backend.failed driver
  failedPending : ∀ driver events,
    backend.failed (backend.withPending driver events) = backend.failed driver
  failedDrive : ∀ driver maxEvents round, inv driver →
    backend.failed (backend.drive driver maxEvents round).1 = backend.failed driver
  failedClose : ∀ driver, backend.failed (backend.close driver) = backend.failed driver
  failedStop : ∀ driver, backend.failed (backend.stop driver none) = backend.failed driver
  stopFailed : ∀ driver error, (backend.failed (backend.stop driver (some error))).isSome
  fail : ∀ driver error, (backend.failed (backend.fail driver error)).isSome

/-- The books of a driver. -/
structure Accounted (outstanding : σ → List SendTicket) (nextTicket : σ → Nat) (driver : σ)
    (log : Log) : Prop where
  decoded : log.decoded = incomingParcels (log.handed ++ backend.pendingEvents driver)
  tickets : log.issued.Perm
    (resolvedTickets (log.handed ++ backend.pendingEvents driver) ++ outstanding driver)
  fresh : ∀ ticket ∈ log.issued, ticket.get < nextTicket driver
  nodup : log.issued.Nodup

variable {backend} {inv : σ → Prop} {outstanding : σ → List SendTicket} {nextTicket : σ → Nat}
  {driver after : σ} {log : Log}

/-! ## Failures stay -/

theorem Lawful.failed_finish (h : backend.Lawful inv outstanding nextTicket)
    (hfailed : (backend.failed driver).isSome) : (backend.failed (backend.finish driver).1).isSome := by
  unfold Backend.finish
  split
  · exact h.stopFailed driver _
  · dsimp only
    rw [h.failedStop]
    exact hfailed

/-- A driver that has failed stays failed. -/
theorem Lawful.failed_apply (h : backend.Lawful inv outstanding nextTicket)
    (hfailed : (backend.failed driver).isSome) (op : Op ρ) :
    (backend.failed (backend.apply driver op)).isSome := by
  obtain ⟨error, herror⟩ := Option.isSome_iff_exists.mp hfailed
  cases op with
  | trySend parcel =>
    rw [Backend.apply, h.failedSend]
    exact hfailed
  | progress maxEvents round =>
    rw [Backend.apply, Backend.progress]
    split
    · exact hfailed
    · simp only [herror, Option.isSome_some]
  | flush round later =>
    rw [Backend.apply, Backend.flush]
    simp only [herror, Option.isSome_some]
  | shutdown round later =>
    rw [Backend.apply, Backend.shutDown]
    have hclosed : (backend.failed (backend.close driver)).isSome := by
      rw [h.failedClose]
      exact hfailed
    simp only [hclosed, if_true]
    exact h.failed_finish hclosed

/-! ## One call -/

theorem Accounted.trySend (h : backend.Lawful inv outstanding nextTicket) (hinv : inv driver)
    (hacc : backend.Accounted outstanding nextTicket driver log) (parcel : Parcel) :
    inv (backend.trySend driver parcel).1 ∧
      backend.Accounted outstanding nextTicket (backend.trySend driver parcel).1
        { log with issued := log.issued ++
            ((backend.trySend driver parcel).2.toOption).toList } := by
  cases hsend : backend.trySend driver parcel with
  | mk after result =>
    cases result with
    | error error =>
      obtain ⟨hafter, hpending, hperm, hnext⟩ := h.refused driver parcel after error hinv hsend
      refine ⟨hafter, ?_⟩
      have hsame : log.issued ++ (Except.error error : Except _ SendTicket).toOption.toList =
          log.issued := List.append_nil _
      refine ⟨?_, ?_, ?_, ?_⟩
      · rw [hpending]
        exact hacc.decoded
      · rw [hsame, hpending]
        exact hacc.tickets.trans (hperm.symm.append_left _)
      · rw [hsame]
        exact fun ticket hmem => (hacc.fresh ticket hmem).trans_le hnext
      · rw [hsame]
        exact hacc.nodup
    | ok ticket =>
      obtain ⟨hafter, hpending, hperm, hticket, hnext⟩ := h.sent driver parcel after ticket hinv hsend
      refine ⟨hafter, ⟨?_, ?_, ?_, ?_⟩⟩
      · rw [hpending]
        exact hacc.decoded
      · rw [hpending]
        refine (List.perm_append_singleton _ _).trans ?_
        refine (hacc.tickets.cons ticket).trans ?_
        exact List.perm_middle.symm.trans (hperm.symm.append_left _)
      · intro other hmem
        dsimp only
        rw [hnext]
        rcases List.mem_append.mp hmem with hold | hnew
        · exact Nat.lt_succ_of_lt (hacc.fresh other hold)
        · rw [List.mem_singleton.mp hnew, hticket]
          exact Nat.lt_succ_self _
      · refine (List.perm_append_singleton _ _).nodup_iff.mpr (List.nodup_cons.mpr ⟨?_, hacc.nodup⟩)
        intro hmem
        have := hacc.fresh ticket hmem
        omega

/-- What a drive does to the books, its events handed over. -/
theorem Accounted.drive (h : backend.Lawful inv outstanding nextTicket) (hinv : inv driver)
    (hacc : backend.Accounted outstanding nextTicket driver log) {maxEvents : Nat} {round : ρ}
    {events : List TransportEvent} {moved : Bool} (hempty : backend.pendingEvents driver = [])
    (hdrive : backend.drive driver maxEvents round = (after, events, .ok moved)) :
    inv after ∧ backend.Accounted outstanding nextTicket after
      { log with handed := log.handed ++ events
                 decoded := log.decoded ++ incomingParcels events } := by
  obtain ⟨hafter, hnext, extra, hpending, hextra, hperm⟩ :=
    h.drive driver maxEvents round after events moved hinv hdrive
  refine ⟨hafter, ⟨?_, ?_, ?_, hacc.nodup⟩⟩
  · rw [hacc.decoded, hpending, hempty]
    simp [hextra]
  · rw [hpending, hempty]
    refine hacc.tickets.trans ?_
    rw [hempty]
    simp only [List.append_nil, List.nil_append, resolvedTickets_append, List.append_assoc]
    exact hperm.append_left _
  · intro ticket hmem
    rw [hnext]
    exact hacc.fresh ticket hmem

/-- Events move from the pending queue to the caller. -/
theorem Accounted.pop (h : backend.Lawful inv outstanding nextTicket) (hinv : inv driver)
    (hacc : backend.Accounted outstanding nextTicket driver log) (count : Nat) :
    inv (backend.withPending driver ((backend.pendingEvents driver).drop count)) ∧
      backend.Accounted outstanding nextTicket
        (backend.withPending driver ((backend.pendingEvents driver).drop count))
        { log with handed := log.handed ++ (backend.pendingEvents driver).take count } := by
  obtain ⟨hafter, hpending, hout, hnext⟩ :=
    h.withPending driver ((backend.pendingEvents driver).drop count) hinv
  have hsame : log.handed ++ (backend.pendingEvents driver).take count ++
      (backend.pendingEvents driver).drop count = log.handed ++ backend.pendingEvents driver := by
    rw [List.append_assoc, List.take_append_drop]
  refine ⟨hafter, ⟨?_, ?_, ?_, hacc.nodup⟩⟩
  · rw [hpending, hsame]
    exact hacc.decoded
  · rw [hpending, hsame, hout]
    exact hacc.tickets
  · rw [hnext]
    exact hacc.fresh

theorem Accounted.progress (h : backend.Lawful inv outstanding nextTicket) (hinv : inv driver)
    (hacc : backend.Accounted outstanding nextTicket driver log) (maxEvents : Nat) (round : ρ)
    (hfinal : backend.failed (backend.progress driver maxEvents round).1 = none) :
    inv (backend.progress driver maxEvents round).1 ∧
      backend.Accounted outstanding nextTicket (backend.progress driver maxEvents round).1
        { log with
          handed := log.handed ++ (backend.progress driver maxEvents round).2.1
          decoded := log.decoded ++ incomingParcels (backend.driven driver maxEvents round) } := by
  unfold Backend.progress at hfinal ⊢
  unfold Backend.driven
  cases hshut : backend.isShutdown driver with
  | true => simpa [incomingParcels] using ⟨hinv, hacc⟩
  | false =>
    rw [if_neg (Bool.not_eq_true _ ▸ hshut)] at hfinal
    rw [if_neg Bool.false_ne_true]
    cases hfailed : backend.failed driver with
    | some error =>
      simp only [hfailed] at hfinal
      cases hfinal
    | none =>
      obtain ⟨hpopped, hbooks⟩ := hacc.pop h hinv maxEvents
      simp only [hfailed] at hfinal ⊢
      by_cases hroom : (backend.pendingEvents driver).length < maxEvents
      · -- Everything pending is handed over, and the rest of the budget is driven.
        have htake : (backend.pendingEvents driver).take maxEvents =
            backend.pendingEvents driver := List.take_of_length_le (Nat.le_of_lt hroom)
        have hdrop : (backend.pendingEvents driver).drop maxEvents = [] :=
          List.drop_eq_nil_of_le (Nat.le_of_lt hroom)
        rw [htake, hdrop] at hbooks
        rw [hdrop] at hpopped
        simp only [htake, hdrop, if_pos hroom] at hfinal ⊢
        cases hdrive : backend.drive (backend.withPending driver [])
            (maxEvents - (backend.pendingEvents driver).length) round with
        | mk after rest =>
          obtain ⟨events, result⟩ := rest
          rw [hdrive] at hfinal
          cases result with
          | error error =>
            have hfails := h.fail after error
            rw [hfinal] at hfails
            cases hfails
          | ok moved =>
            have hdone := hbooks.drive h hpopped (h.withPending driver [] hinv).2.1 hdrive
            simpa [hroom] using hdone
      · have hlength : ((backend.pendingEvents driver).take maxEvents).length = maxEvents := by
          rw [List.length_take]
          omega
        rw [hlength, if_neg (Nat.lt_irrefl _)]
        simpa [hroom, incomingParcels] using ⟨hpopped, hbooks⟩

/-! ## Flush and shutdown -/

/-- What a round of a flush that drops nothing does to the books. -/
theorem Accounted.flushRound (h : backend.Lawful inv outstanding nextTicket) (hinv : inv driver)
    (hacc : backend.Accounted outstanding nextTicket driver log) {round : ρ}
    {generated : List TransportEvent} {result : Option (Except TransportError Unit)}
    (hfits : backend.roundFits driver round = true)
    (hround : backend.flushRound driver round = (after, generated, result))
    (hfinal : backend.failed after = none) :
    inv after ∧ backend.Accounted outstanding nextTicket after
        { log with decoded := log.decoded ++ incomingParcels generated } ∧
      (result = none ∨ result = some (.ok ()) ∧ outstanding after = []) := by
  unfold Backend.flushRound at hround
  unfold Backend.roundFits at hfits
  cases hempty : backend.outboundEmpty driver with
  | true =>
    rw [if_pos hempty] at hround
    cases hround
    exact ⟨hinv, by simpa [incomingParcels] using hacc,
      Or.inr ⟨rfl, h.drained driver hinv hempty⟩⟩
  | false =>
    rw [hempty] at hround hfits
    simp only [Bool.false_or] at hfits
    rw [if_neg Bool.false_ne_true] at hround
    cases hdrive : backend.drive driver (backend.pendingCapacity driver) round with
    | mk driven rest =>
      obtain ⟨events, outcome⟩ := rest
      rw [hdrive] at hround hfits
      cases outcome with
      | error error =>
        cases hround
        have hfails := h.fail driven error
        rw [hfinal] at hfails
        cases hfails
      | ok moved =>
        have hroom := of_decide_eq_true hfits
        dsimp only at hround hroom
        rw [if_neg (not_lt.mpr hroom)] at hround
        cases hround
        obtain ⟨hdriven, hnext, extra, hpending, hextra, hperm⟩ :=
          h.drive driver _ round driven generated moved hinv hdrive
        obtain ⟨hafter, hqueued, hout, hsame⟩ :=
          h.withPending driven (backend.pendingEvents driven ++ generated) hdriven
        refine ⟨hafter, ⟨?_, ?_, ?_, hacc.nodup⟩, Or.inl rfl⟩
        · rw [hqueued, hpending, hacc.decoded]
          simp [hextra]
        · rw [hqueued, hout, hpending]
          refine hacc.tickets.trans ?_
          simp only [resolvedTickets_append, List.append_assoc]
          refine List.Perm.append_left _ (List.Perm.append_left _ (hperm.trans ?_))
          rw [← List.append_assoc, ← List.append_assoc]
          exact List.perm_append_comm.append_right _
        · rw [hsame, hnext]
          exact hacc.fresh

theorem Lawful.failed_flushRound (h : backend.Lawful inv outstanding nextTicket)
    (hinv : inv driver) {round : ρ} {generated : List TransportEvent}
    (hround : backend.flushRound driver round = (after, generated, none)) :
    backend.failed after = backend.failed driver := by
  unfold Backend.flushRound at hround
  split at hround
  · cases hround
  have hfailed := h.failedDrive driver (backend.pendingCapacity driver) round hinv
  generalize backend.drive driver (backend.pendingCapacity driver) round = step at hround hfailed
  obtain ⟨driven, events, outcome⟩ := step
  cases outcome with
  | error error => cases hround
  | ok moved =>
    dsimp only at hround hfailed
    split at hround
    · cases hround
    · cases hround
      rw [h.failedPending, hfailed]

/-- What a whole flush that drops nothing does to the books. -/
theorem Accounted.flushRounds (h : backend.Lawful inv outstanding nextTicket) (hinv : inv driver)
    (hacc : backend.Accounted outstanding nextTicket driver log)
    (hstart : backend.failed driver = none) {round : ρ} {later : List ρ}
    {generated : List TransportEvent} {result : Except TransportError Unit}
    (hfits : backend.flushFits driver round later = true)
    (hflush : backend.flushRounds driver round later = (after, generated, result))
    (hfinal : backend.failed after = none) :
    inv after ∧ backend.Accounted outstanding nextTicket after
        { log with decoded := log.decoded ++ incomingParcels generated } ∧
      (result = .ok () → outstanding after = []) := by
  induction later generalizing driver log round generated with
  | nil =>
    rw [Backend.flushRounds] at hflush
    rw [Backend.flushFits] at hfits
    cases hround : backend.flushRound driver round with
    | mk next rest =>
      obtain ⟨events, outcome⟩ := rest
      rw [hround] at hflush
      have hnext : next = after := by cases outcome <;> cases hflush <;> rfl
      subst hnext
      obtain ⟨hafter, hbooks, hresult⟩ := hacc.flushRound h hinv hfits hround hfinal
      rcases hresult with rfl | ⟨rfl, hout⟩
      · cases hflush
        exact ⟨hafter, hbooks, fun hok => by cases hok⟩
      · cases hflush
        exact ⟨hafter, hbooks, fun _ => hout⟩
  | cons next later ih =>
    rw [Backend.flushRounds] at hflush
    rw [Backend.flushFits, Bool.and_eq_true] at hfits
    cases hround : backend.flushRound driver round with
    | mk middle rest =>
      obtain ⟨events, outcome⟩ := rest
      rw [hround] at hflush hfits
      cases outcome with
      | some outcome =>
        cases hflush
        obtain ⟨hafter, hbooks, hresult⟩ := hacc.flushRound h hinv hfits.1 hround hfinal
        rcases hresult with hnone | ⟨-, hout⟩
        · cases hnone
        · exact ⟨hafter, hbooks, fun _ => hout⟩
      | none =>
        have hmiddle := (h.failed_flushRound hinv hround).trans hstart
        obtain ⟨hinv', hbooks, -⟩ := hacc.flushRound h hinv hfits.1 hround hmiddle
        cases hrest : backend.flushRounds middle next later with
        | mk last tail =>
          obtain ⟨more, outcome⟩ := tail
          dsimp only at hflush
          rw [hrest] at hflush
          cases hflush
          obtain ⟨hafter, hdone, hout⟩ := ih hinv' hbooks hmiddle hfits.2 hrest
          refine ⟨hafter, ?_, hout⟩
          simpa [List.append_assoc] using hdone

/-- The events `shutdown` hands over at its end close the books of a drained driver. -/
theorem Accounted.finish (h : backend.Lawful inv outstanding nextTicket) (hinv : inv driver)
    (hacc : backend.Accounted outstanding nextTicket driver log) (hout : outstanding driver = [])
    (hfinal : backend.failed (backend.finish driver).1 = none) :
    inv (backend.finish driver).1 ∧
      backend.Accounted outstanding nextTicket (backend.finish driver).1
        { log with handed := log.handed ++ (backend.finish driver).2.1 } ∧
      backend.pendingEvents (backend.finish driver).1 = [] ∧
      outstanding (backend.finish driver).1 = [] := by
  unfold Backend.finish at hfinal ⊢
  split at hfinal
  · have hfails := h.stopFailed driver (.peer backend.partialMessage)
    rw [hfinal] at hfails
    cases hfails
  · rename_i hshort
    rw [if_neg hshort]
    obtain ⟨hafter, hpending, hempty, hnext⟩ := h.stop driver hinv hout
    refine ⟨hafter, ⟨?_, ?_, ?_, hacc.nodup⟩, hpending, hempty⟩
    · rw [hpending, hacc.decoded]
      simp [incomingParcels]
    · rw [hpending, hempty]
      have htickets := hacc.tickets
      rw [hout] at htickets
      simpa [resolvedTickets] using htickets
    · rw [hnext]
      exact hacc.fresh

/-- What a shutdown that drops nothing does to the books, and that nothing is left when it
    succeeds. -/
theorem Accounted.shutDown (h : backend.Lawful inv outstanding nextTicket) (hinv : inv driver)
    (hacc : backend.Accounted outstanding nextTicket driver log)
    (hstart : backend.failed driver = none) {round : ρ} {later : List ρ}
    (hfits : backend.flushFits (backend.close driver) round later = true)
    (hfinal : backend.failed (backend.shutDown driver round later).1 = none) :
    inv (backend.shutDown driver round later).1 ∧
      backend.Accounted outstanding nextTicket (backend.shutDown driver round later).1
        { log with
          handed := log.handed ++ (backend.shutDown driver round later).2.1
          decoded := log.decoded ++
            incomingParcels (backend.flush (backend.close driver) round later).2.1 } ∧
      ((backend.shutDown driver round later).2.2 = .ok () →
        backend.pendingEvents (backend.shutDown driver round later).1 = [] ∧
        outstanding (backend.shutDown driver round later).1 = []) := by
  obtain ⟨hclosed, hpending, hout, hnext⟩ := h.close driver hinv
  have hopen : backend.failed (backend.close driver) = none := (h.failedClose driver).trans hstart
  have hbooks : backend.Accounted outstanding nextTicket (backend.close driver) log :=
    ⟨by rw [hpending]; exact hacc.decoded, by rw [hpending, hout]; exact hacc.tickets,
      by rw [hnext]; exact hacc.fresh, hacc.nodup⟩
  have hflush : backend.flush (backend.close driver) round later =
      backend.flushRounds (backend.close driver) round later := by
    rw [Backend.flush, hopen]
  unfold Backend.shutDown at hfinal ⊢
  simp only [hopen, Option.isSome_none, Bool.false_eq_true, if_false, hflush] at hfinal ⊢
  cases hrounds : backend.flushRounds (backend.close driver) round later with
  | mk flushed rest =>
    obtain ⟨generated, result⟩ := rest
    rw [hrounds] at hfinal
    cases result with
    | error error =>
      obtain ⟨hafter, hdone, -⟩ := hbooks.flushRounds h hclosed hopen hfits hrounds hfinal
      refine ⟨hafter, by simpa using hdone, fun hok => by cases hok⟩
    | ok done =>
      have halive : backend.failed flushed = none := by
        cases hfailed : backend.failed flushed with
        | none => rfl
        | some error =>
          have hstays := h.failed_finish (by rw [hfailed]; rfl)
          dsimp only at hfinal
          rw [hfinal] at hstays
          cases hstays
      obtain ⟨hafter, hdone, hempty⟩ := hbooks.flushRounds h hclosed hopen hfits hrounds halive
      obtain ⟨hlast, hclosing, hnothing⟩ := hdone.finish h hafter (hempty rfl) hfinal
      exact ⟨hlast, hclosing, fun _ => hnothing⟩

/-- What a call keeps: the invariant of the driver and its books. -/
theorem Accounted.record (h : backend.Lawful inv outstanding nextTicket) (hinv : inv driver)
    (hacc : backend.Accounted outstanding nextTicket driver log) {op : Op ρ}
    (hfits : backend.fits driver op = true)
    (hfinal : backend.failed (backend.apply driver op) = none) :
    inv (backend.apply driver op) ∧
      backend.Accounted outstanding nextTicket (backend.apply driver op)
        (backend.record (driver, log) op).2 := by
  have hstart : backend.failed driver = none := by
    cases hfailed : backend.failed driver with
    | none => rfl
    | some error =>
      have hstays := h.failed_apply (by rw [hfailed]; rfl) op
      rw [hfinal] at hstays
      cases hstays
  cases op with
  | trySend parcel =>
    have hdone := hacc.trySend h hinv parcel
    simpa [Backend.record, Backend.apply, Backend.issued, Backend.handed, Backend.generated,
      incomingParcels] using hdone
  | progress maxEvents round =>
    have hdone := hacc.progress h hinv maxEvents round hfinal
    simpa [Backend.record, Backend.apply, Backend.issued, Backend.handed,
      Backend.generated] using hdone
  | flush round later =>
    have hflush : backend.flush driver round later = backend.flushRounds driver round later := by
      rw [Backend.flush, hstart]
    rw [Backend.apply, hflush] at hfinal
    obtain ⟨hafter, hbooks, -⟩ := hacc.flushRounds h hinv hstart hfits rfl hfinal
    simpa [Backend.record, Backend.apply, Backend.issued, Backend.handed, Backend.generated,
      hflush] using ⟨hafter, hbooks⟩
  | shutdown round later =>
    obtain ⟨hafter, hbooks, -⟩ := hacc.shutDown h hinv hstart hfits hfinal
    simpa [Backend.record, Backend.apply, Backend.issued, Backend.handed, Backend.generated,
      hstart] using ⟨hafter, hbooks⟩

/-! ## Sequences of calls -/

theorem record_fst (entry : σ × Log) (ops : List (Op ρ)) :
    (ops.foldl backend.record entry).1 = ops.foldl backend.apply entry.1 := by
  induction ops generalizing entry with
  | nil => rfl
  | cons op rest ih => exact ih (backend.record entry op)

theorem Lawful.failed_foldl (h : backend.Lawful inv outstanding nextTicket)
    (hfailed : (backend.failed driver).isSome) (ops : List (Op ρ)) :
    (backend.failed (ops.foldl backend.apply driver)).isSome := by
  induction ops generalizing driver with
  | nil => exact hfailed
  | cons op rest ih => exact ih (h.failed_apply hfailed op)

/-- The books balance after every sequence of calls that drop nothing and leave the
    driver working. -/
theorem Accounted.run (h : backend.Lawful inv outstanding nextTicket) (hinv : inv driver)
    (hacc : backend.Accounted outstanding nextTicket driver log) {ops : List (Op ρ)}
    (hfits : backend.allFit driver ops = true)
    (hfinal : backend.failed (ops.foldl backend.apply driver) = none) :
    inv (ops.foldl backend.record (driver, log)).1 ∧
      backend.Accounted outstanding nextTicket (ops.foldl backend.record (driver, log)).1
        (ops.foldl backend.record (driver, log)).2 := by
  induction ops generalizing driver log with
  | nil => exact ⟨hinv, hacc⟩
  | cons op rest ih =>
    rw [Backend.allFit, Bool.and_eq_true] at hfits
    have halive : backend.failed (backend.apply driver op) = none := by
      cases hfailed : backend.failed (backend.apply driver op) with
      | none => rfl
      | some error =>
        have hstays := h.failed_foldl (by rw [hfailed]; rfl) rest
        rw [List.foldl_cons] at hfinal
        rw [hfinal] at hstays
        cases hstays
    obtain ⟨hnext, hbooks⟩ := hacc.record h hinv hfits.1 halive
    exact ih hnext hbooks hfits.2 hfinal

end Backend

end Hataori.Transport
