import Hataori.Object.Envelope
import Hataori.Object.Slots
import Hataori.Object.StepEffects

/-!
# Freezes that end without a snapshot

What the request of a freeze does to its object, from `admit` over `handle_request` and
`freeze_migration` to `handle_completion`. `admit` closes the object before anything else is
decided. Only the exits of `freeze_migration` behind the freezer open it again; a refusal by the
mailbox, by the domain or by one of the checks leaves it closed until the forwarding time is over.
-/

namespace Hataori.Object

open Hataori.Runtime Lib.Maps

variable {σ ι : Type}

/-- What the admission of a job can change of an entry: its lifecycle, its mailbox and readers and
    writer, and its counters. -/
def ObjectEntry.gate (entry : ObjectEntry σ ι) : ObjectLifecycle × Admission ι × Nat × Nat :=
  (entry.lifecycle, entry.admission, entry.inFlight, entry.placementTickets)

/-- How far the request of a freeze came. -/
inductive FreezeEnd where
  | frozen (packet : MigrationPacket)
  | refused
  | waits
  deriving DecidableEq, Repr

namespace Store

/-- What `admit` reads off the packet of a freeze. -/
def freezeTarget (packet : MigrationPacket) : Target :=
  ⟨packet.object, packet.objectType, packet.fromLocation.epoch, some packet.migration⟩

/-- The job of a freeze on its object: neither a read nor a placement. -/
def freezeJob (packet : MigrationPacket) : ObjectJob := ⟨packet.object, false, false⟩

/-- A freeze that was given its turn: its domain takes it, it runs and is completed, or the
    domain does not and the admission is rolled back. Only `handle_request` does the latter; a
    job from a mailbox that its domain does not take is dropped by `progress`, unanswered. -/
def freezeTurn (store : Store σ ι) (packet : MigrationPacket) (submitted contended : Bool)
    (now : Nat) : FreezeEnd × Store σ ι :=
  if submitted then
    match store.freezeMigration packet contended now with
    | (.ok answer, store) => (.frozen answer, store.complete (freezeJob packet))
    | (.error _, store) => (.refused, store.complete (freezeJob packet))
  else (.refused, store.complete (freezeJob packet))

/-- The request of a freeze. One that waits in the mailbox has its turn later. -/
def freezeRequest (store : Store σ ι) (packet : MigrationPacket) (job : ActionJob ι)
    (domainAvailable submitted contended : Bool) (now ranAt : Nat) : FreezeEnd × Store σ ι :=
  match store.admitTo (freezeTarget packet) false false job domainAvailable now with
  | (.error _, store) => (.refused, store)
  | (.ok none, store) => (.waits, store)
  | (.ok (some _), store) => store.freezeTurn packet submitted contended ranAt

/-- The checks of `freeze_migration` in front of the freezer pass. -/
structure Freezable (store : Store σ ι) (packet : MigrationPacket) (entry : ObjectEntry σ ι) :
    Prop where
  objectType : entry.objectType = packet.objectType
  freezer : ∃ freezer, store.freezerFor packet entry = .ok freezer
  state : entry.state.isSome = true

/-- The checks of `admit` in front of the mailbox pass. -/
structure Accepted (packet : MigrationPacket) (entry : ObjectEntry σ ι) : Prop where
  objectType : entry.objectType = packet.objectType
  epoch : entry.location.epoch = packet.fromLocation.epoch
  lifecycle : entry.lifecycle = .resident ∨
    ∃ expiresAt, entry.lifecycle = .freezing packet.migration expiresAt

/-- A freeze has its turn at once. -/
structure HasTurn (entry : ObjectEntry σ ι) (domainAvailable : Bool) : Prop where
  domain : domainAvailable = true
  queue : entry.admission.queue = []
  tickets : entry.placementTickets = 0
  idle : entry.admission.writer = false ∧ entry.admission.readers = 0

variable {store : Store σ ι} {packet : MigrationPacket} {entry : ObjectEntry σ ι} {expiresAt : Nat}

/-! ## The turn of a freeze -/

/-- A freeze that fails opens the object again exactly when its checks passed. -/
theorem freezeMigration_failed {contended : Bool} {now : Nat} {error : ActionError}
    (hentry : store.entryAt packet.object = some entry)
    (hclosed : entry.lifecycle = .freezing packet.migration expiresAt)
    (hfailed : (store.freezeMigration packet contended now).1 = .error error) :
    ∃ after, (store.freezeMigration packet contended now).2.entryAt packet.object = some after ∧
      after.admission = entry.admission ∧ after.inFlight = entry.inFlight ∧
      after.placementTickets = entry.placementTickets ∧
      ((Freezable store packet entry ∧ after.lifecycle = .resident) ∨
        (¬Freezable store packet entry ∧ after.lifecycle = entry.lifecycle)) := by
  have hkept : freezeLifecycle packet.migration entry.lifecycle
      (now + store.limits.forwardingTtl) = .ok entry.lifecycle := by
    rw [hclosed]
    exact if_pos rfl
  by_cases hfreezable : Freezable store packet entry
  · obtain ⟨freezer, hfreezer⟩ := hfreezable.freezer
    obtain ⟨state, hstate⟩ := Option.isSome_iff_exists.mp hfreezable.state
    have hfound := entryForMigration_of hentry hfreezable.objectType
    unfold freezeMigration at hfailed ⊢
    simp only [hfound, hfreezer, hkept, hstate] at hfailed ⊢
    generalize (if contended = true then (Except.error (ActionError.user
      "object admission saturated"), state) else freezer state) = ran at hfailed ⊢
    obtain ⟨frozen, left⟩ := ran
    dsimp only at hfailed ⊢
    cases frozen with
    | error reason => exact ⟨_, entryAt_setEntry_self _ _ _, rfl, rfl, rfl, .inl ⟨hfreezable, rfl⟩⟩
    | ok snapshot =>
      dsimp only at hfailed ⊢
      cases hvalid : store.validateSnapshot snapshot with
      | error reason =>
        exact ⟨_, entryAt_setEntry_self _ _ _, rfl, rfl, rfl, .inl ⟨hfreezable, rfl⟩⟩
      | ok bytes =>
        rw [hvalid] at hfailed
        cases hfailed
  · rcases store.freezeMigration_cases packet contended now with ⟨_, hsame⟩ |
      ⟨found, freezer, lifecycle, hat, htype, hfreezer, hlife, ⟨_, -, -, hnext⟩ |
        ⟨_, state, _, hstate, -, -⟩ | ⟨state, _, _, hstate, -, -, -⟩⟩
    · rw [hsame]
      exact ⟨entry, hentry, rfl, rfl, rfl, .inr ⟨hfreezable, rfl⟩⟩
    · obtain rfl : entry = found := Option.some.inj (hentry.symm.trans hat)
      obtain rfl : entry.lifecycle = lifecycle := Except.ok.inj (hkept.symm.trans hlife)
      rw [hnext]
      exact ⟨_, entryAt_setEntry_self _ _ _, rfl, rfl, rfl, .inr ⟨hfreezable, rfl⟩⟩
    · obtain rfl : entry = found := Option.some.inj (hentry.symm.trans hat)
      exact absurd ⟨htype, ⟨freezer, hfreezer⟩, by rw [hstate]; rfl⟩ hfreezable
    · obtain rfl : entry = found := Option.some.inj (hentry.symm.trans hat)
      exact absurd ⟨htype, ⟨freezer, hfreezer⟩, by rw [hstate]; rfl⟩ hfreezable

/-- The end of the job of a freeze: the writer has gone. -/
theorem complete_freezeJob (hentry : store.entryAt packet.object = some entry) :
    ((store.complete (freezeJob packet)).entryAt packet.object).map ObjectEntry.gate =
      some (entry.lifecycle, { entry.admission with writer := false }, entry.inFlight - 1,
        entry.placementTickets) := by
  have hgone : (store.complete (freezeJob packet)).entryAt packet.object =
      (store.entryAt packet.object).map fun found => released found (freezeJob packet) :=
    complete_entry store (freezeJob packet)
  rw [hgone, hentry]
  rfl

/-- What a turn that ends without a snapshot leaves: the writer has gone, and the object is open
    if the freezer was reached. -/
theorem freezeTurn_refused {submitted contended : Bool} {now : Nat}
    (hentry : store.entryAt packet.object = some entry)
    (hclosed : entry.lifecycle = .freezing packet.migration expiresAt)
    (hrefused : (store.freezeTurn packet submitted contended now).1 = .refused) :
    ∃ lifecycle,
      ((store.freezeTurn packet submitted contended now).2.entryAt packet.object).map
          ObjectEntry.gate =
        some (lifecycle, { entry.admission with writer := false }, entry.inFlight - 1,
          entry.placementTickets) ∧
      ((submitted = true ∧ Freezable store packet entry) ∧ lifecycle = .resident ∨
        ¬(submitted = true ∧ Freezable store packet entry) ∧ lifecycle = entry.lifecycle) := by
  unfold freezeTurn at hrefused ⊢
  cases submitted with
  | false =>
    exact ⟨entry.lifecycle, complete_freezeJob hentry,
      .inr ⟨fun h => Bool.false_ne_true h.1, rfl⟩⟩
  | true =>
    rw [if_pos rfl] at hrefused ⊢
    have hfailed := @freezeMigration_failed _ _ store packet entry expiresAt contended now
    cases hran : store.freezeMigration packet contended now with
    | mk result next =>
      rw [hran] at hrefused hfailed
      cases result with
      | ok answer => cases hrefused
      | error error =>
        obtain ⟨after, hafter, hadmission, hflight, htickets, hlifecycle⟩ :=
          hfailed hentry hclosed rfl
        refine ⟨after.lifecycle, ?_, ?_⟩
        · rw [← hadmission, ← hflight, ← htickets]
          exact complete_freezeJob hafter
        · rcases hlifecycle with ⟨hfreezable, hopen⟩ | ⟨hnot, hsame⟩
          · exact .inl ⟨⟨rfl, hfreezable⟩, hopen⟩
          · exact .inr ⟨fun h => hnot h.2, hsame⟩

/-! ## The whole request -/

/-- Entries with the same gate differ in nothing an admission can change. -/
theorem gate_eq_iff {lifecycle : ObjectLifecycle} {admission : Admission ι} {flight tickets : Nat} :
    some (lifecycle, admission, flight, tickets) = some entry.gate ↔
      lifecycle = entry.lifecycle ∧ admission = entry.admission ∧ flight = entry.inFlight ∧
        tickets = entry.placementTickets := by
  simp [ObjectEntry.gate]

/-- `admit` on the packet of a freeze: refused before the object is touched, refused by the full
    mailbox, queued, or started. -/
theorem admitTo_freeze (job : ActionJob ι) (domainAvailable : Bool) (now : Nat)
    (hentry : store.entryAt packet.object = some entry) :
    let result := store.admitTo (freezeTarget packet) false false job domainAvailable now
    (¬Accepted packet entry ∧ ∃ error, result = (.error error, store)) ∨
    (Accepted packet entry ∧ ∃ lifecycle closedUntil,
      lifecycle = .freezing packet.migration closedUntil ∧
      (entry.lifecycle = .resident ∨ entry.lifecycle = lifecycle) ∧
      ((¬HasTurn entry domainAvailable ∧ (∃ error, result.1 = .error error) ∧
          result.2.entryAt packet.object = some { entry with lifecycle := lifecycle }) ∨
        result.1 = .ok none ∨
        (HasTurn entry domainAvailable ∧ (∃ started, result.1 = .ok (some started)) ∧
          result.2.registry = store.registry ∧
          result.2.entryAt packet.object = some { entry with
            lifecycle := lifecycle
            admission := entry.admission.start false
            inFlight := entry.inFlight + 1 }))) := by
  intro result
  have hresult : result = store.admitTo (freezeTarget packet) false false job domainAvailable now :=
    rfl
  clear_value result
  have hlook : store.entries.lookup (freezeTarget packet).object = some entry := hentry
  unfold admitTo at hresult
  simp only [hlook, Bool.false_eq_true, if_false] at hresult
  split at hresult
  · next htype => exact .inl ⟨fun h => htype h.objectType, _, hresult⟩
  next htype =>
  split at hresult
  · next hepoch => exact .inl ⟨fun h => hepoch h.epoch, _, hresult⟩
  next hepoch =>
  split at hresult
  · next error hlife =>
    refine .inl ⟨fun h => ?_, _, hresult⟩
    rcases h.lifecycle with hopen | ⟨closedUntil, hclosed⟩
    · rw [hopen] at hlife
      cases hlife
    · rw [hclosed] at hlife
      simp [freezeTarget, admitLifecycle] at hlife
  next lifecycle hlife =>
  have haccepted : ∃ closedUntil, lifecycle = .freezing packet.migration closedUntil ∧
      (entry.lifecycle = .resident ∨ entry.lifecycle = lifecycle) := by
    cases hbefore : entry.lifecycle with
    | resident =>
      rw [hbefore] at hlife
      exact ⟨_, (Except.ok.inj hlife).symm, .inl rfl⟩
    | freezing existing expires =>
      rw [hbefore] at hlife
      simp only [freezeTarget, admitLifecycle] at hlife
      split at hlife
      · next hsame =>
        cases hlife
        exact ⟨expires, by rw [hsame], .inr rfl⟩
      · cases hlife
    | prepared migration expires =>
      rw [hbefore] at hlife
      cases hlife
    | forwarding location expires =>
      rw [hbefore] at hlife
      cases hlife
    | retiring location =>
      rw [hbefore] at hlife
      cases hlife
  obtain ⟨closedUntil, hclosed, hbefore⟩ := haccepted
  refine .inr ⟨⟨not_not.mp htype, not_not.mp hepoch, ?_⟩, lifecycle, closedUntil, hclosed, hbefore,
    ?_⟩
  · rcases hbefore with hopen | hsame
    · exact .inl hopen
    · exact .inr ⟨closedUntil, hsame.trans hclosed⟩
  unfold admitMailbox at hresult
  dsimp only at hresult
  split at hresult
  · next havailable =>
    simp only [freezeTarget, Option.isNone_some, Bool.false_or, Bool.and_eq_true, beq_iff_eq,
      List.isEmpty_iff, Admission.compatible, Bool.false_eq_true, if_false, Bool.not_eq_true']
      at havailable
    subst hresult
    refine .inr (.inr ⟨⟨havailable.1.1.1, havailable.1.1.2, havailable.1.2, havailable.2⟩, ⟨_, rfl⟩,
      rfl, entryAt_setEntry_self _ _ _⟩)
  · next havailable =>
    split at hresult
    · subst hresult
      refine .inl ⟨fun hturn => havailable ?_, ⟨_, rfl⟩, entryAt_setEntry_self _ _ _⟩
      simp [freezeTarget, hturn.domain, hturn.queue, hturn.tickets, Admission.compatible,
        hturn.idle.1, hturn.idle.2]
    · subst hresult
      exact .inr (.inl rfl)

/-- The checks in front of the freezer do not look at what an admission changes. -/
theorem freezable_iff {after : Store σ ι} {changed : ObjectEntry σ ι}
    (hregistry : after.registry = store.registry) (hlocation : changed.location = entry.location)
    (hauthority : changed.authority = entry.authority)
    (htype : changed.objectType = entry.objectType) (hstate : changed.state = entry.state) :
    Freezable after packet changed ↔ Freezable store packet entry := by
  have hfreezer : after.freezerFor packet changed = store.freezerFor packet entry := by
    unfold freezerFor
    rw [hregistry, hlocation, hauthority]
  constructor
  · rintro ⟨htyped, hfound, hpresent⟩
    exact ⟨htype ▸ htyped, hfreezer ▸ hfound, hstate ▸ hpresent⟩
  · rintro ⟨htyped, hfound, hpresent⟩
    exact ⟨htype ▸ htyped, hfreezer ▸ hfound, hstate ▸ hpresent⟩

/-- Closed by the request or closed before, an object is as it was exactly when being open before
    and reaching the freezer go together. -/
theorem lifecycle_back_iff {before closed after : ObjectLifecycle} {reached : Prop}
    (hclosed : closed = .freezing packet.migration expiresAt)
    (hbefore : before = .resident ∨ before = closed)
    (hafter : reached ∧ after = .resident ∨ ¬reached ∧ after = closed) :
    after = before ↔ (before = .resident ↔ reached) := by
  have hdiffer : closed ≠ .resident := by
    rw [hclosed]
    exact ObjectLifecycle.noConfusion
  rcases hafter with ⟨hreached, rfl⟩ | ⟨hmissed, rfl⟩
  · rcases hbefore with rfl | rfl
    · simp [hreached]
    · simp [hreached, hdiffer, hdiffer.symm]
  · rcases hbefore with rfl | rfl
    · simp [hmissed, hdiffer]
    · simp [hmissed, hdiffer]

/-- A freeze that has its turn at once and ends without a snapshot. -/
theorem freezeRequest_undone_iff (job : ActionJob ι) (domainAvailable submitted contended : Bool)
    (now ranAt : Nat)
    (hrefused : (store.freezeRequest packet job domainAvailable submitted contended now ranAt).1 =
      .refused) :
    ((store.freezeRequest packet job domainAvailable submitted contended now ranAt).2.entryAt
        packet.object).map ObjectEntry.gate = (store.entryAt packet.object).map ObjectEntry.gate ↔
      ∀ entry, store.entryAt packet.object = some entry → Accepted packet entry →
        (entry.lifecycle = .resident ↔
          HasTurn entry domainAvailable ∧ submitted = true ∧ Freezable store packet entry) := by
  cases hentry : store.entryAt packet.object with
  | none =>
    have hlook : store.entries.lookup (freezeTarget packet).object = none := hentry
    have hsame : (store.freezeRequest packet job domainAvailable submitted contended now ranAt).2 =
        store := by
      unfold freezeRequest admitTo
      simp only [hlook]
    rw [hsame, hentry]
    simp
  | some entry =>
    suffices hone : ((store.freezeRequest packet job domainAvailable submitted contended now
        ranAt).2.entryAt packet.object).map ObjectEntry.gate = some entry.gate ↔
          (Accepted packet entry → (entry.lifecycle = .resident ↔
            HasTurn entry domainAvailable ∧ submitted = true ∧ Freezable store packet entry)) by
      simpa using hone
    have hadmit := admitTo_freeze job domainAvailable now hentry
    unfold freezeRequest at hrefused ⊢
    generalize store.admitTo (freezeTarget packet) false false job domainAvailable now = admitted
      at hadmit hrefused ⊢
    obtain ⟨result, closed⟩ := admitted
    rcases hadmit with ⟨hnot, error, hsame⟩ | ⟨haccepted, lifecycle, closedUntil, hclosed, hbefore,
      ⟨hnoturn, ⟨error, herror⟩, hafter⟩ | hwaits | ⟨hturn, ⟨started, hstarted⟩, hregistry, hafter⟩⟩
    · cases hsame
      rw [hentry]
      exact ⟨fun _ haccepted => absurd haccepted hnot, fun _ => rfl⟩
    · cases herror
      dsimp only at hafter ⊢
      rw [hafter, imp_iff_right haccepted]
      refine Iff.trans ?_ (lifecycle_back_iff hclosed hbefore (.inr ⟨fun h => hnoturn h.1, rfl⟩))
      simp [ObjectEntry.gate]
    · cases hwaits
      cases hrefused
    · cases hstarted
      dsimp only at hafter hregistry hrefused ⊢
      obtain ⟨left, hgate, hreached⟩ := freezeTurn_refused hafter hclosed hrefused
      have hchecks : Freezable closed packet { entry with
          lifecycle := lifecycle
          admission := entry.admission.start false
          inFlight := entry.inFlight + 1 } ↔ Freezable store packet entry :=
        freezable_iff hregistry rfl rfl rfl rfl
      rw [hchecks] at hreached
      have hadmission : { entry.admission.start false with writer := false } = entry.admission := by
        have hwriter := hturn.idle.1
        cases hmailbox : entry.admission with
        | mk readers writer queue =>
          rw [hmailbox] at hwriter
          subst hwriter
          rfl
      rw [hgate, imp_iff_right haccepted, gate_eq_iff, and_iff_right hturn,
        ← lifecycle_back_iff hclosed hbefore hreached]
      simp [hadmission]

/-- A freeze that waited, while its object stayed closed, is taken by its domain and ends without
    a snapshot. -/
theorem waitingFreeze_undone_iff {waiting : ActionJob ι} {rest started : List (ActionJob ι)}
    {available : Nat → DomainId → Bool} {max queries : Nat} {original : ObjectLifecycle}
    {contended : Bool} {now : Nat} (hentry : store.entryAt packet.object = some entry)
    (hadmission : entry.admission = ⟨0, false, waiting :: rest⟩)
    (hwaiting : waiting.object = some (freezeJob packet)) (htickets : entry.placementTickets = 0)
    (havailable : available queries waiting.domain = true) (hroom : started.length < max)
    (hclosed : entry.lifecycle = .freezing packet.migration expiresAt)
    (horiginal : original = .resident ∨ original = entry.lifecycle)
    (hrefused : ((retryEntry available max (store, started, queries) packet.object).1.freezeTurn
      packet true contended now).1 = .refused) :
    (((retryEntry available max (store, started, queries) packet.object).1.freezeTurn packet
        true contended now).2.entryAt packet.object).map ObjectEntry.gate =
        some { entry with lifecycle := original, admission := ⟨0, false, rest⟩ }.gate ↔
      (original = .resident ↔ Freezable store packet entry) := by
  have hread : waiting.isRead = false := by
    unfold ActionJob.isRead
    rw [hwaiting]
    rfl
  have htaken : (retryEntry available max (store, started, queries) packet.object).1 =
      store.setEntry packet.object (startReady entry [waiting] rest) := by
    have hlook : store.entries.lookup packet.object = some entry := hentry
    obtain ⟨room, hleft⟩ : ∃ room, max - started.length = room + 1 :=
      Nat.exists_eq_succ_of_ne_zero (Nat.sub_ne_zero_of_lt hroom)
    unfold retryEntry
    simp only [hlook, if_neg (Nat.not_le.mpr hroom), hadmission, hleft, readyFront, havailable,
      htickets, hread]
    simp
  rw [htaken] at hrefused ⊢
  have hafter := entryAt_setEntry_self store packet.object (startReady entry [waiting] rest)
  obtain ⟨left, hgate, hreached⟩ := freezeTurn_refused hafter hclosed hrefused
  have hchecks : Freezable (store.setEntry packet.object (startReady entry [waiting] rest)) packet
      (startReady entry [waiting] rest) ↔ Freezable store packet entry :=
    freezable_iff rfl rfl rfl rfl rfl
  rw [hchecks] at hreached
  simp only [true_and] at hreached
  have hleft : (startReady entry [waiting] rest).admission = ⟨0, true, rest⟩ := by
    simp [startReady, hadmission, hread]
  rw [hgate, gate_eq_iff, hleft, ← lifecycle_back_iff hclosed horiginal hreached]
  simp [startReady]

/-- A freeze that ends without a snapshot leaves the lifecycle, the counters and the mailbox as
    they were, whether it has its turn at once or waits for it and is then taken by its domain,
    exactly in these cases: it is not accepted; or its object was open, the freeze has its turn,
    the domain takes it and its checks pass; or its object was closed for this migration before,
    and the freezer is not reached. -/
theorem freeze_undone_iff (store : Store σ ι) (packet : MigrationPacket)
    (submitted contended : Bool) (ranAt : Nat) :
    (∀ (job : ActionJob ι) (domainAvailable : Bool) (now : Nat),
      (store.freezeRequest packet job domainAvailable submitted contended now ranAt).1 = .refused →
      (((store.freezeRequest packet job domainAvailable submitted contended now ranAt).2.entryAt
          packet.object).map ObjectEntry.gate = (store.entryAt packet.object).map ObjectEntry.gate ↔
        ∀ entry, store.entryAt packet.object = some entry → Accepted packet entry →
          (entry.lifecycle = .resident ↔
            HasTurn entry domainAvailable ∧ submitted = true ∧ Freezable store packet entry))) ∧
    (∀ (entry : ObjectEntry σ ι) (waiting : ActionJob ι) (rest started : List (ActionJob ι))
        (available : Nat → DomainId → Bool) (max queries expiresAt : Nat)
        (original : ObjectLifecycle),
      store.entryAt packet.object = some entry →
      entry.admission = ⟨0, false, waiting :: rest⟩ → waiting.object = some (freezeJob packet) →
      entry.placementTickets = 0 → available queries waiting.domain = true →
      started.length < max → entry.lifecycle = .freezing packet.migration expiresAt →
      (original = .resident ∨ original = entry.lifecycle) →
      ((retryEntry available max (store, started, queries) packet.object).1.freezeTurn packet
        true contended ranAt).1 = .refused →
      ((((retryEntry available max (store, started, queries) packet.object).1.freezeTurn packet
          true contended ranAt).2.entryAt packet.object).map ObjectEntry.gate =
          some { entry with lifecycle := original, admission := ⟨0, false, rest⟩ }.gate ↔
        (original = .resident ↔ Freezable store packet entry))) :=
  ⟨fun job domainAvailable now hrefused =>
      freezeRequest_undone_iff job domainAvailable submitted contended now ranAt hrefused,
    fun _ _ _ _ _ _ _ _ _ hentry hadmission hwaiting htickets havailable hroom hclosed horiginal
        hrefused =>
      waitingFreeze_undone_iff hentry hadmission hwaiting htickets havailable hroom hclosed
        horiginal hrefused⟩

end Store

namespace Sample

open Lib.Machine

/-- The job of the freeze. -/
def freezing : ActionJob Segments where
  requester := ⟨2⟩
  request := ⟨⟨2⟩, 9, u64_nine⟩
  actionId := migrationFreezeActionId
  domain := ⟨0⟩
  input := (packet 1 u64_one).encode
  cancelled := 0
  isLocal := false
  object := none

/-- A locality whose type cannot be frozen now. -/
def busy : Store UInt8 Segments :=
  { store with
    registry :=
      { store.registry with
        types := AList.singleton objectType
          { mobility := .migratable
            snapshotVersion := 1
            snapshotSchema := 1
            decoder := fun _ => .ok 0
            freezer := some fun state => (.error (.user "busy"), state)
            restorer := none } } }

/-- The same locality, where the freeze waits for its turn. -/
def waitingEntry : ObjectEntry UInt8 Segments where
  objectType := objectType
  authority := ⟨1⟩
  location := ⟨⟨1⟩, ⟨0⟩, 1, 1, 1, ObjectLocation.valid_first⟩
  state := some 7
  lifecycle := .freezing ⟨⟨1⟩, 1, u64_one⟩ 10
  prepared := none
  snapshotBytes := 0
  leases := ∅
  roots := 1
  inFlight := 0
  placementTickets := 0
  admission := ⟨0, false, [{ freezing with object := some ⟨object, false, false⟩ }]⟩

/-- The object is open again after the freezer failed, at once or after a wait. -/
theorem busy_undone :
    ((busy.freezeRequest (packet 1 (by decide)) freezing true true false 0 0).2.entryAt
      object).map (fun entry => (entry.lifecycle, entry.inFlight)) = some (.resident, 0) ∧
    (((Store.retryEntry (fun _ _ => true) 1 (busy.setEntry object waitingEntry, [], 0)
      object).1.freezeTurn (packet 1 (by decide)) true false 0).2.entryAt object).map
        (fun entry => (entry.lifecycle, entry.inFlight)) = some (.resident, 0) := by
  have hfreezable : ∀ entry, busy.entryAt (packet 1 (by decide)).object = some entry →
      Store.Accepted (packet 1 (by decide)) entry → (entry.lifecycle = .resident ↔
        Store.HasTurn entry true ∧ true = true ∧
          Store.Freezable busy (packet 1 (by decide)) entry) := by
    intro entry hentry _
    cases hentry
    exact ⟨fun _ => ⟨⟨rfl, rfl, rfl, rfl, rfl⟩, rfl, rfl, ⟨_, rfl⟩, rfl⟩, fun _ => rfl⟩
  have hundone := ((Store.freeze_undone_iff busy (packet 1 (by decide)) true false 0).1 freezing
    true 0 rfl).mpr hfreezable
  have hwaited := ((Store.freeze_undone_iff (busy.setEntry object waitingEntry)
    (packet 1 (by decide)) true false 0).2 waitingEntry _ [] [] (fun _ _ => true) 1 0 10 .resident
      rfl rfl rfl rfl rfl (by decide) rfl (.inl rfl) rfl).mpr
        ⟨fun _ => ⟨rfl, ⟨_, rfl⟩, rfl⟩, fun _ => rfl⟩
  have hgate := congrArg (Option.map fun gate => (gate.1, gate.2.2.1)) hundone
  have hgate' := congrArg (Option.map fun gate => (gate.1, gate.2.2.1)) hwaited
  rw [Option.map_map] at hgate hgate'
  exact ⟨hgate, hgate'⟩

/-- Five writes: one runs, and four fill the mailbox. -/
def crowded : List Move :=
  [call write 1 u64_one, call write 2 u64_two, call write 3 u64_three, call write 4 u64_four,
    call write 5 u64_five]

/-- A freeze the full mailbox refuses closes the object. -/
theorem crowded_closed :
    ¬(∀ (moves : List Move) (final : Floor UInt8) (packet : MigrationPacket)
        (job : ActionJob Segments) (domainAvailable submitted contended : Bool) (now ranAt : Nat),
      exec Floor.step floor moves = some final →
      (final.store.freezeRequest packet job domainAvailable submitted contended now ranAt).1 =
        .refused →
      ((final.store.freezeRequest packet job domainAvailable submitted contended now
          ranAt).2.entryAt packet.object).map ObjectEntry.gate =
        (final.store.entryAt packet.object).map ObjectEntry.gate) ∧
    ∃ final, exec Floor.step floor crowded = some final ∧
      (final.store.entryAt object).map (·.lifecycle) = some .resident ∧
      (final.store.freezeRequest (packet 1 (by decide)) freezing true true false 0 0).1 =
        .refused ∧
      ((final.store.freezeRequest (packet 1 (by decide)) freezing true true false 0 0).2.entryAt
        object).map (·.lifecycle) = some (.freezing ⟨⟨1⟩, 1, by decide⟩ 10) := by
  have hcrowded : ∃ final, exec Floor.step floor crowded = some final ∧
      (final.store.entryAt object).map (·.lifecycle) = some .resident ∧
      (final.store.freezeRequest (packet 1 (by decide)) freezing true true false 0 0).1 =
        .refused ∧
      ((final.store.freezeRequest (packet 1 (by decide)) freezing true true false 0 0).2.entryAt
        object).map (·.lifecycle) = some (.freezing ⟨⟨1⟩, 1, by decide⟩ 10) :=
    ⟨_, rfl, rfl, rfl, rfl⟩
  refine ⟨fun hall => ?_, hcrowded⟩
  obtain ⟨final, hrun, hopen, hrefused, hclosed⟩ := hcrowded
  have hsame := hall crowded final _ _ _ _ _ _ _ hrun hrefused
  have hlifecycle := congrArg (Option.map fun gate => gate.1) hsame
  rw [Option.map_map, Option.map_map] at hlifecycle
  have hdiffer := hclosed.symm.trans (hlifecycle.trans hopen)
  cases hdiffer

end Sample

end Hataori.Object
