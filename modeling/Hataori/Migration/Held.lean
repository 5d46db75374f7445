import Hataori.Migration.Decided
import Hataori.Object.Keeps

/-!
# The committed location is backed

From the commit to the activation the destination holds the prepared slot, and from
then on the object is resident there, in every run in which the coordinator hears
about the commit and the slot does not run out of time.
-/

namespace Hataori.Migration

open Hataori.Runtime Hataori.Object Hataori.Object.Store Lib.Machine

variable {σ : Type} {w next : World σ}

/-! ### The stores under steps that are no migration steps -/

/-- What a step that moves no coordinator and executes no migration step other than
    a freeze does to the store it runs at. -/
inductive StoreMove (w : World σ) : Action σ → LocalityId → Store σ Input → Prop where
  | quiet (action : Action σ) {locality : LocalityId} {store : Store σ Input}
      (h : Quiet (w.stores locality) store) : StoreMove w action locality store
  | collect (action : Action σ) (locality : LocalityId) (job : ObjectJob) :
      StoreMove w action locality (((w.stores locality).complete job).collect job.object)
  | admitFreeze (attempt : Nat) (request : Request) (domainAvailable : Bool)
      (hsent : w.calls attempt = .sent request) (hstep : request.step = .freeze) :
      StoreMove w (.deliver attempt domainAvailable) request.place.locality
        ((w.stores request.place.locality).admitTo
          ⟨request.packet.object, request.packet.objectType, request.packet.fromLocation.epoch,
            some request.packet.migration⟩ false false
          (World.freezeJob attempt request.place request.packet) domainAvailable w.now).2
  | freeze (index attempt : Nat) (contended : Bool) (packet : MigrationPacket)
      {locality : LocalityId} (hstarted : w.calls attempt = .started locality)
      (hours : Ours w.plan packet) :
      StoreMove w (.run index contended) locality
        ((w.stores locality).freezeMigration packet contended w.now).2
  | expire (locality : LocalityId) (order : List ObjectId)
      (hperm : order.Perm (w.stores locality).entries.keys) :
      StoreMove w (.expire locality order) locality
        ((w.stores locality).expire order w.now)

/-- An expiry that meets the slot of the migration after its time. -/
def takesSlot (w : World σ) : Action σ → Bool
  | .expire locality _ =>
    expiryDiscards (w.stores locality) w.plan.object w.plan.migration w.now
  | _ => false

/-- An expiry that meets the freeze of the migration after its time. -/
def opensFreeze (w : World σ) : Action σ → Bool
  | .expire locality _ =>
    expiryThaws (w.stores locality) w.plan.object w.plan.migration w.now
  | _ => false

/-- The step changes at most one store, in one of the ways of `StoreMove`. -/
structure Moves (w : World σ) (action : Action σ) (next : World σ) : Prop where
  discarded : next.history.discarded = (w.history.discarded || takesSlot w action)
  thawed : next.history.thawed = (w.history.thawed || opensFreeze w action)
  stores : next.stores = w.stores ∨
    ∃ locality store, StoreMove w action locality store ∧
      next.stores = Function.update w.stores locality store

theorem finishStore_move (w : World σ) (action : Action σ) (running : Running σ) :
    StoreMove w action running.locality
      (World.finishStore (w.stores running.locality) running) := by
  unfold World.finishStore
  split
  · exact .collect action running.locality running.job
  · exact .quiet action (complete_quiet _ _)

theorem Base.moves (h : Base w) {action : Action σ} (haction : action.isAside = true)
    (hnext : w.step action = some next) : Moves w action next := by
  cases action with
  | tick elapsed =>
    cases hnext
    exact ⟨(Bool.or_false _).symm, (Bool.or_false _).symm, .inl rfl⟩
  | call locality actionId objectType epoch payload request domain domainAvailable =>
    simp only [World.step, World.deliverCall] at hnext
    split at hnext
    · cases hnext
    case h_2 read placement haccess =>
      split at hnext
      all_goals
        cases hnext
        exact ⟨(Bool.or_false _).symm, (Bool.or_false _).symm,
          .inr ⟨locality, _, .quiet _ (admitTo_quiet _ _ _ _ _ _ _ rfl), rfl⟩⟩
  | direct locality objectType epoch update =>
    cases hnext
    unfold World.directCall
    simp only
    split
    · exact ⟨(Bool.or_false _).symm, (Bool.or_false _).symm, .inl rfl⟩
    · exact ⟨(Bool.or_false _).symm, (Bool.or_false _).symm,
        .inr ⟨locality, _, .quiet _ (admitLocal_quiet _ _ _ _ _), rfl⟩⟩
  | retry locality order max available =>
    simp only [World.step] at hnext
    split at hnext
    · cases hnext
      exact ⟨(Bool.or_false _).symm, (Bool.or_false _).symm,
        .inr ⟨locality, _, .quiet _ (retryReady_quiet _ _ _ _), rfl⟩⟩
    · cases hnext
  | run index contended =>
    simp only [World.step] at hnext
    split at hnext
    case h_1 running hrunning =>
      split at hnext
      · cases hnext
      · cases hnext
        unfold World.runJob
        simp only
        split
        · exact ⟨(Bool.or_false _).symm, (Bool.or_false _).symm,
            .inr ⟨running.locality, _, .quiet _ (executeAction_quiet _ _ _ _ _ _ _), rfl⟩⟩
        case h_2 update hwork =>
          refine ⟨(Bool.or_false _).symm, (Bool.or_false _).symm,
            .inr ⟨running.locality, _, .quiet _ ?_, rfl⟩⟩
          rcases executeDirect_cases (w.stores running.locality) running.job.object update contended
            with hsame | ⟨write, -, hwrite⟩
          · rw [hsame]
            exact .refl _
          · rw [hwrite]
            exact writeDirect_quiet _ _ _
        case h_3 attempt packet hwork =>
          obtain ⟨hcall, hours, -⟩ := h.mailboxes.started running (List.mem_of_getElem? hrunning)
            attempt packet hwork
          exact ⟨(Bool.or_false _).symm, (Bool.or_false _).symm, .inr ⟨running.locality, _,
            .freeze index attempt contended packet hcall hours, rfl⟩⟩
    case h_2 => cases hnext
  | finish index =>
    obtain ⟨running, hrunning, rfl⟩ := Option.map_eq_some_iff.mp hnext
    unfold World.finishJob
    simp only
    split
    all_goals
      exact ⟨(Bool.or_false _).symm, (Bool.or_false _).symm,
        .inr ⟨running.locality, _, finishStore_move w _ running, rfl⟩⟩
  | abandon index =>
    simp only [World.step] at hnext
    split at hnext
    · split at hnext
      all_goals
        cases hnext
        exact ⟨(Bool.or_false _).symm, (Bool.or_false _).symm, .inl rfl⟩
    · cases hnext
  | expire locality order =>
    simp only [World.step] at hnext
    split at hnext
    case isTrue hperm =>
      cases hnext
      exact ⟨rfl, rfl, .inr ⟨locality, _, .expire locality order hperm, rfl⟩⟩
    case isFalse => cases hnext
  | _ => cases haction

theorem deliverFreeze_moves {attempt : Nat} {request : Request}
    (hsent : w.calls attempt = .sent request) (hstep : request.step = .freeze)
    (domainAvailable : Bool) :
    Moves w (.deliver attempt domainAvailable)
      (w.deliverFreeze attempt request domainAvailable) := by
  unfold World.deliverFreeze
  simp only
  split
  all_goals
    exact ⟨(Bool.or_false _).symm, (Bool.or_false _).symm, .inr ⟨request.place.locality, _,
      .admitFreeze attempt request domainAvailable hsent hstep, rfl⟩⟩

theorem StoreMove.keepsPlace (hbase : Base w) {action : Action σ} {locality : LocalityId}
    {store : Store σ Input} (h : StoreMove w action locality store) :
    KeepsPlace w.plan.object (w.stores locality) store := by
  cases h with
  | quiet _ h => exact h.keepsPlace _
  | collect _ _ job =>
    exact ((complete_quiet _ job).keepsPlace _).trans (collect_keepsPlace _ _ _)
  | admitFreeze attempt request domainAvailable hsent hstep =>
    rw [← (hbase.protocol.ours attempt request hsent).object]
    exact (admitTo_keeps _ ⟨_, _, _, _⟩ _ _ _ _ _).2
  | freeze index attempt contended packet hstarted hours =>
    rw [← hours.object]
    exact (freezeMigration_keeps _ _ _ _).2
  | expire _ order hperm => exact expire_keepsPlace _ hperm _

theorem StoreMove.keepsSlot (hbase : Base w) {action : Action σ} {locality : LocalityId}
    {store : Store σ Input} (h : StoreMove w action locality store)
    (htakes : takesSlot w action = false) {entry : ObjectEntry σ Input}
    (hentry : (w.stores locality).entryAt w.plan.object = some entry)
    (hslot : holdsSlot entry w.plan.migration = true) :
    ∃ after, store.entryAt w.plan.object = some after ∧ after.objectType = entry.objectType ∧
      after.authority = entry.authority ∧ after.prepared = entry.prepared := by
  have hsome : entry.prepared.isSome = true := by
    unfold holdsSlot at hslot
    cases hprepared : entry.prepared with
    | none => simp [hprepared] at hslot
    | some prepared => rfl
  refine (?_ : KeepsSlot w.plan.object (w.stores locality) store) entry hentry hsome
  cases h with
  | quiet _ h => exact h.keepsSlot _
  | collect _ _ job =>
    exact ((complete_quiet _ job).keepsSlot _).trans (collect_keepsSlot _ _ _)
  | admitFreeze attempt request domainAvailable hsent hstep =>
    rw [← (hbase.protocol.ours attempt request hsent).object]
    exact (admitTo_keeps _ ⟨_, _, _, _⟩ _ _ _ _ _).1
  | freeze index attempt contended packet hstarted hours =>
    rw [← hours.object]
    exact (freezeMigration_keeps _ _ _ _).1
  | expire _ order hperm =>
    refine expire_keepsSlot _ hperm fun found hfound => ?_
    rw [hentry] at hfound
    cases hfound
    have hlook : (w.stores locality).entries.lookup w.plan.object = some entry := hentry
    simpa [takesSlot, expiryDiscards, hlook, hslot] using htakes

/-- Without a freeze on its way a resident object stays. -/
theorem StoreMove.keepsResident {action : Action σ} {locality : LocalityId}
    {store : Store σ Input} (h : StoreMove w action locality store)
    (hfreeze : ∀ attempt, (w.calls attempt).isFreeze = false) :
    KeepsResident w.plan.object (w.stores locality) store := by
  cases h with
  | quiet _ h => exact h.keepsResident _
  | collect _ _ job =>
    exact (complete_quiet _ job).trans_keepsResident (collect_keepsResident _ _ _)
  | admitFreeze attempt request domainAvailable hsent hstep =>
    have hcall := hfreeze attempt
    rw [hsent] at hcall
    simp [CallState.isFreeze, hstep] at hcall
  | freeze index attempt contended packet hstarted hours =>
    have hcall := hfreeze attempt
    rw [hstarted] at hcall
    cases hcall
  | expire _ order hperm => exact expire_keepsResident _ hperm _

/-! ### The slot, the state and the directory entry -/

/-- The destination holds the prepared slot of the migration under this location. -/
structure SlotAt (plan : MigrationPacket) (stores : LocalityId → Store σ Input)
    (location : ObjectLocation) : Prop where
  locality : location.locality = plan.destination.locality
  slot : ∃ entry prepared, (stores location.locality).entryAt plan.object = some entry ∧
    entry.objectType = plan.objectType ∧ entry.authority = plan.authority ∧
    entry.prepared = some prepared ∧ prepared.migration = plan.migration ∧
    prepared.location = location

/-- The destination serves the object under this location. -/
structure ResidentAt (plan : MigrationPacket) (stores : LocalityId → Store σ Input)
    (location : ObjectLocation) : Prop where
  locality : location.locality = plan.destination.locality
  resident : ∃ entry, (stores location.locality).entryAt plan.object = some entry ∧
    entry.location = location ∧ entry.authority = plan.authority ∧ Serves entry

/-- The authority has no entry of the object any more. -/
def Collected (plan : MigrationPacket) (stores : LocalityId → Store σ Input) : Prop :=
  (stores plan.authority).entryAt plan.object = none

/-- The directory entry, if there is one, names the location. -/
def Directory (plan : MigrationPacket) (stores : LocalityId → Store σ Input)
    (location : ObjectLocation) : Prop :=
  ∀ entry, (stores plan.authority).entryAt plan.object = some entry → entry.location = location

theorem SlotAt.moves (hbase : Base w) {action : Action σ} {location : ObjectLocation}
    (h : SlotAt w.plan w.stores location) (hmoves : Moves w action next)
    (htakes : takesSlot w action = false) : SlotAt w.plan next.stores location := by
  rcases hmoves.stores with hsame | ⟨locality, store, hmove, hupdate⟩
  · rw [hsame]
    exact h
  · refine ⟨h.locality, ?_⟩
    obtain ⟨entry, prepared, hentry, htype, hauthority, hprepared, hmigration, hlocation⟩ := h.slot
    rw [hupdate]
    by_cases heq : location.locality = locality
    · rw [heq, Function.update_self]
      rw [heq] at hentry
      obtain ⟨after, hafter, htype', hauthority', hprepared'⟩ := hmove.keepsSlot hbase htakes hentry
        (by simp [holdsSlot, hprepared, hmigration])
      exact ⟨after, prepared, hafter, htype'.trans htype, hauthority'.trans hauthority,
        hprepared'.trans hprepared, hmigration, hlocation⟩
    · rw [Function.update_of_ne heq]
      exact ⟨entry, prepared, hentry, htype, hauthority, hprepared, hmigration, hlocation⟩

theorem Directory.moves (hbase : Base w) {action : Action σ} {location : ObjectLocation}
    (h : Directory w.plan w.stores location) (hmoves : Moves w action next) :
    Directory w.plan next.stores location := by
  rcases hmoves.stores with hsame | ⟨locality, store, hmove, hupdate⟩
  · rw [hsame]
    exact h
  · intro entry hentry
    rw [hupdate] at hentry
    by_cases heq : w.plan.authority = locality
    · rw [heq, Function.update_self] at hentry
      obtain ⟨before, hbefore, hlocation, -⟩ := hmove.keepsPlace hbase entry hentry
      rw [hlocation]
      exact h before (heq ▸ hbefore)
    · rw [Function.update_of_ne heq] at hentry
      exact h entry hentry

theorem Collected.moves (hbase : Base w) {action : Action σ} (h : Collected w.plan w.stores)
    (hmoves : Moves w action next) : Collected w.plan next.stores := by
  rcases hmoves.stores with hsame | ⟨locality, store, hmove, hupdate⟩
  · rw [Collected, hsame]
    exact h
  · unfold Collected
    rw [hupdate]
    by_cases heq : w.plan.authority = locality
    · rw [heq, Function.update_self]
      cases hentry : store.entryAt w.plan.object with
      | none => rfl
      | some entry =>
        obtain ⟨before, hbefore, -⟩ := hmove.keepsPlace hbase entry hentry
        rw [← heq] at hbefore
        cases hbefore.symm.trans h
    · rw [Function.update_of_ne heq]
      exact h

theorem ResidentAt.moves (hbase : Base w) {action : Action σ} {location : ObjectLocation}
    (h : ResidentAt w.plan w.stores location) (hmoves : Moves w action next)
    (hfreeze : ∀ attempt, (w.calls attempt).isFreeze = false) :
    ResidentAt w.plan next.stores location ∨ Collected w.plan next.stores := by
  rcases hmoves.stores with hsame | ⟨locality, store, hmove, hupdate⟩
  · rw [hsame]
    exact .inl h
  · obtain ⟨entry, hentry, hlocation, hauthority, hserves⟩ := h.resident
    by_cases heq : location.locality = locality
    · rw [heq] at hentry
      rcases hmove.keepsResident hfreeze entry hentry hserves with
        ⟨after, hafter, hlocation', hauthority', hserves'⟩ | ⟨hgone, hlocal⟩
      · refine .inl ⟨h.locality, after, ?_, hlocation'.trans hlocation,
          hauthority'.trans hauthority, hserves'⟩
        rw [hupdate, heq, Function.update_self]
        exact hafter
      · -- the destination is the authority itself
        rw [hauthority, hbase.mailboxes.localId] at hlocal
        refine .inr ?_
        unfold Collected
        rw [hupdate, hlocal, Function.update_self]
        exact hgone
    · refine .inl ⟨h.locality, entry, ?_, hlocation, hauthority, hserves⟩
      rw [hupdate, Function.update_of_ne heq]
      exact hentry

/-- A store is replaced that is not the destination's. -/
theorem SlotAt.of_eq {plan : MigrationPacket} {stores stores' : LocalityId → Store σ Input}
    {location : ObjectLocation} (h : SlotAt plan stores location)
    (hsame : (stores' location.locality).entryAt plan.object =
      (stores location.locality).entryAt plan.object) : SlotAt plan stores' location := by
  obtain ⟨entry, prepared, hentry, hrest⟩ := h.slot
  exact ⟨h.locality, entry, prepared, hsame.trans hentry, hrest⟩

theorem ResidentAt.of_eq {plan : MigrationPacket} {stores stores' : LocalityId → Store σ Input}
    {location : ObjectLocation} (h : ResidentAt plan stores location)
    (hsame : (stores' location.locality).entryAt plan.object =
      (stores location.locality).entryAt plan.object) : ResidentAt plan stores' location := by
  obtain ⟨entry, hentry, hrest⟩ := h.resident
  exact ⟨h.locality, entry, hsame.trans hentry, hrest⟩

/-! ### The invariant -/

/-- What the code needs from its surroundings: the coordinator hears about the
    commit, the commit is executed before an expiry took the prepared slot, and
    between the commit and the activation no store expires after the time of the
    slot. -/
def inTime (w : World σ) (action : Action σ) : Bool :=
  commitHeard w action &&
  match action with
  | .deliver attempt _ =>
    match w.calls attempt with
    | .sent request => !(request.step == .commit && w.history.discarded)
    | _ => true
  | _ => !(w.history.committed.isSome && w.history.installed.isNone && takesSlot w action)

/-- Before the commit the slot that is to be committed is there; after it the
    location is backed by the slot and then by the object. -/
structure Held (w : World σ) : Prop where
  before : w.history.committed = none → w.history.gaveUp = false →
    w.history.discarded = false →
    (w.coordinator.phase = .prepare → ∀ packet,
      w.calls w.coordinator.attempt = .answered (.ok packet) →
        SlotAt w.plan w.stores packet.fromLocation) ∧
    ∀ request, w.calls w.coordinator.attempt = .sent request → request.step = .commit →
      SlotAt w.plan w.stores request.packet.fromLocation
  after : ∀ location, w.history.committed = some location →
    (w.history.installed = none → SlotAt w.plan w.stores location) ∧
    (w.history.installed ≠ none →
      ResidentAt w.plan w.stores location ∨ Collected w.plan w.stores) ∧
    Directory w.plan w.stores location

theorem Initial.held (h : Initial w) : Held w := by
  have hnone : w.history.committed = none := by rw [h.history]; rfl
  obtain ⟨place, hsent⟩ := h.sent
  constructor
  · intro _ _ _
    rw [h.attempt, hsent, h.phase]
    refine ⟨fun hphase => ?_, ?_⟩
    · cases hphase
    · intro request hrequest hstep
      cases hrequest
      cases hstep
  · intro location hsome
    rw [hnone] at hsome
    cases hsome

theorem Held.aside (hbase : Base w) (hdecided : Decided w) (h : Held w) {action : Action σ}
    (haside : Aside w next) (hmoves : Moves w action next)
    (htime : w.history.committed.isSome = true → w.history.installed = none →
      takesSlot w action = false) : Held next := by
  constructor
  · intro hnone hgave hkept
    rw [haside.committed] at hnone
    rw [haside.gaveUp] at hgave
    rw [hmoves.discarded, Bool.or_eq_false_iff] at hkept
    obtain ⟨hprepare, hcommit⟩ := h.before hnone hgave hkept.1
    rw [haside.coordinator, haside.plan]
    have hcalls := haside.calls w.coordinator.attempt
    refine ⟨fun hphase packet hanswer => ?_, fun request hrequest hstep => ?_⟩
    · rcases hcalls with hsame | ⟨hfreeze, -⟩
      · exact (hprepare hphase packet (hsame ▸ hanswer)).moves hbase hmoves hkept.2
      · rcases hbase.freeze_phase hfreeze with hdone | heq
        · rw [hphase] at hdone
          cases hdone
        · rw [hphase] at heq
          cases heq
    · rcases hcalls with hsame | ⟨-, hnot⟩
      · exact (hcommit request (hsame ▸ hrequest) hstep).moves hbase hmoves hkept.2
      · exact absurd hrequest (hnot request)
  · intro location hsome
    rw [haside.committed] at hsome
    obtain ⟨hslot, hresident, hdirectory⟩ := h.after location hsome
    rw [haside.installed, haside.plan]
    refine ⟨fun hnone => ?_, fun hinstalled => ?_, hdirectory.moves hbase hmoves⟩
    · exact (hslot hnone).moves hbase hmoves (htime (by rw [hsome]; rfl) hnone)
    · rcases hresident hinstalled with hresident | hcollected
      · exact hresident.moves hbase hmoves (hdecided.no_freeze hbase hsome)
      · exact .inr (hcollected.moves hbase hmoves)

/-- A call is refused or lost. -/
theorem Held.forget (h : Held w) {attempt : Nat} {state : CallState}
    (hstate : state = .gone ∨ state = .answered .failed) : Held (w.setCall attempt state) := by
  refine ⟨fun hnone hgave hkept => ?_, h.after⟩
  obtain ⟨hprepare, hcommit⟩ := h.before hnone hgave hkept
  refine ⟨fun hphase packet hanswer => ?_, fun request hrequest hstep => ?_⟩
  · change Function.update w.calls attempt state w.coordinator.attempt = _ at hanswer
    rcases eq_or_ne w.coordinator.attempt attempt with heq | hne
    · rw [heq, Function.update_self] at hanswer
      rcases hstate with rfl | rfl <;> cases hanswer
    · rw [Function.update_of_ne hne] at hanswer
      exact hprepare hphase packet hanswer
  · change Function.update w.calls attempt state w.coordinator.attempt = _ at hrequest
    rcases eq_or_ne w.coordinator.attempt attempt with heq | hne
    · rw [heq, Function.update_self] at hrequest
      rcases hstate with rfl | rfl <;> cases hrequest
    · rw [Function.update_of_ne hne] at hrequest
      exact hcommit request hrequest hstep

theorem Held.drop (h : Held w) :
    Held { w with coordinator := { w.coordinator with phase := .done .dropped } } := by
  refine ⟨fun hnone hgave hkept => ⟨by simp, ?_⟩, h.after⟩
  exact (h.before hnone hgave hkept).2

/-- The coordinator goes on; it sends a commit only for a slot that is there. -/
theorem Held.resumed (h : Held w) {reply : Reply} {calls : Nat → CallState}
    (hresumes : Resumes w reply calls) (sent rollbackSent : Bool) :
    Held ({ w with calls := calls }.proceed reply sent rollbackSent) := by
  have hpolled := w.coordinator.poll_polled w.maxRedirects reply sent rollbackSent
  rw [proceed_eq]
  refine ⟨fun hnone hgave hkept => ?_, h.after⟩
  simp only at hnone hgave hkept ⊢
  rw [Bool.or_eq_false_iff] at hgave
  obtain ⟨hprepare, hcommit⟩ := h.before hnone hgave.1 hkept
  generalize (w.coordinator.poll w.maxRedirects reply sent rollbackSent).1 = c' at *
  generalize (w.coordinator.poll w.maxRedirects reply sent rollbackSent).2 = request at *
  -- a commit that is still on its way was there before
  have hold : c'.attempt = w.coordinator.attempt → ∀ found, calls c'.attempt = .sent found →
      found.step = .commit → SlotAt w.plan w.stores found.packet.fromLocation := by
    intro hattempt found hfound
    rw [hattempt] at hfound
    exact hcommit found (hresumes.sent hfound)
  cases hpolled with
  | rest result hphase =>
    exact ⟨by simp [hphase], hold rfl⟩
  | done _ result hphase hattempt horiginal hpacket =>
    exact ⟨by simp [hphase], hold hattempt⟩
  | stranded _ location result hbefore hreply hphase hattempt hpacket =>
    exact ⟨by simp [hphase], hold hattempt⟩
  | rollbackSource _ destination hphase =>
    rw [hphase] at hgave
    cases hgave.2
  | rollbackDestination _ hbefore hphase =>
    rw [hphase] at hgave
    cases hgave.2
  | commit _ hbefore hreply hphase hattempt horiginal =>
    refine ⟨by simp [hphase], ?_⟩
    intro found hfound _
    simp only [withRequest, Function.update_self, CallState.sent.injEq] at hfound
    subst hfound
    subst hreply
    cases hresumes with
    | answer hanswered => exact hprepare hbefore _ hanswered
  | _ =>
    simp only [withRequest, Function.update_self, reduceCtorEq, CallState.sent.injEq]
    refine ⟨by simp, ?_⟩
    rintro found rfl hstep
    cases hstep

/-! ### Migration steps -/

/-- A successful preparation leaves the slot it answers with. -/
theorem prepare_slotAt {plan packet answer : MigrationPacket}
    {stores : LocalityId → Store σ Input} {locality : LocalityId} {now : Nat}
    (hlocal : (stores locality).localId = locality) (hours : Ours plan packet)
    (hok : ((stores locality).prepareMigration packet now).1 = .ok answer) :
    SlotAt plan
      (Function.update stores locality ((stores locality).prepareMigration packet now).2)
      answer.fromLocation := by
  rcases ((stores locality).prepareMigration_cases packet now).2 with ⟨_, herror, -⟩ |
    ⟨location, state, bytes, _, _, hanswer, hdestination, hlocality, -, -, -, -, -, -, htype,
      hauthority, hends⟩
  · cases herror.symm.trans hok
  · rw [hlocal] at hdestination hlocality
    have hfrom : answer.fromLocation = location := by
      rw [← Except.ok.inj (hanswer.symm.trans hok)]
    rw [hfrom]
    refine ⟨by rw [hlocality, ← hdestination, hours.destination], ?_⟩
    rw [hlocality, Function.update_self]
    rw [← hours.object, ← hours.objectType, ← hours.authority, ← hours.migration]
    rcases hends with ⟨existing, hexisting, hmigration, hsame, hentry⟩ | ⟨-, hentry⟩
    · -- the slot of this location was there already
      cases hfound : (stores locality).entryAt packet.object with
      | none =>
        rw [destinationEntry, hfound] at hexisting
        cases hexisting
      | some entry =>
        rw [destinationEntry, hfound] at hexisting htype hauthority
        exact ⟨entry, existing, hentry.trans hfound, htype, hauthority, hexisting, hmigration,
          hsame⟩
    · exact ⟨_, _, hentry, htype, hauthority, rfl, rfl, rfl⟩

/-- The directory after an activation or a retirement. -/
theorem Directory.execute {plan packet : MigrationPacket}
    {stores : LocalityId → Store σ Input} {location : ObjectLocation} {step : Step}
    (h : Directory plan stores location) (hours : Ours plan packet)
    (hpacket : packet.fromLocation = location) (hstep : step = .activate ∨ step = .retire)
    (locality : LocalityId) (now : Nat) :
    Directory plan
      (Function.update stores locality (World.execute (stores locality) step packet now).2)
      location := by
  intro entry hentry
  by_cases heq : plan.authority = locality
  · subst heq
    rw [Function.update_self, ← hours.object] at hentry
    have hplace : ∃ before, (stores plan.authority).entryAt packet.object = some before ∧
        (entry.location = before.location ∨ entry.location = packet.fromLocation) := by
      rcases hstep with rfl | rfl
      · exact activateMigration_place _ packet hentry
      · exact retireMigration_place _ packet now hentry
    obtain ⟨before, hbefore, hsame | hmoved⟩ := hplace
    · rw [hsame]
      exact h before (hours.object ▸ hbefore)
    · exact hmoved.trans hpacket
  · rw [Function.update_of_ne heq] at hentry
    exact h entry hentry

theorem Collected.execute {plan packet : MigrationPacket}
    {stores : LocalityId → Store σ Input} {step : Step} (h : Collected plan stores)
    (hours : Ours plan packet) (hstep : step = .activate ∨ step = .retire)
    (locality : LocalityId) (now : Nat) :
    Collected plan
      (Function.update stores locality (World.execute (stores locality) step packet now).2) := by
  unfold Collected
  by_cases heq : plan.authority = locality
  · subst heq
    rw [Function.update_self, ← hours.object]
    cases hentry : (World.execute (stores plan.authority) step packet now).2.entryAt
      packet.object with
    | none => rfl
    | some entry =>
      have hplace : ∃ before, (stores plan.authority).entryAt packet.object = some before := by
        rcases hstep with rfl | rfl
        · exact (activateMigration_place _ packet hentry).imp fun _ => And.left
        · exact (retireMigration_place _ packet now hentry).imp fun _ => And.left
      obtain ⟨before, hbefore⟩ := hplace
      rw [hours.object] at hbefore
      cases hbefore.symm.trans h
  · rw [Function.update_of_ne heq]
    exact h

/-- The history after an activation: the location stays, and the state of the slot is
    recorded if there was one. -/
theorem record_activate (history : History σ) (store : Store σ Input) (packet : MigrationPacket)
    (result : Except ActionError MigrationPacket) :
    (World.record history store .activate packet result).committed = history.committed ∧
      (World.record history store .activate packet result).installed =
        match result with
        | .error _ => history.installed
        | .ok _ => (store.entryAt packet.object).bind fun entry =>
            entry.prepared.map fun prepared => prepared.state := by
  cases result with
  | error error => exact ⟨rfl, rfl⟩
  | ok answer => exact ⟨rfl, rfl⟩

/-- The activation finds the slot and installs its state, or finds the object
    installed. -/
theorem Held.activate (hbase : Base w) (h : Held w) {attempt : Nat} {request : Request}
    {location : ObjectLocation} (hsent : w.calls attempt = .sent request)
    (hcommitted : w.history.committed = some location) (hstep : request.step = .activate)
    (hplace : request.place = w.plan.destination)
    (hpacket : request.packet.fromLocation = location) :
    Held (w.deliverStep attempt request) := by
  have hours := hbase.protocol.ours attempt request hsent
  obtain ⟨hslot, hresident, hdirectory⟩ := h.after location hcommitted
  have hdirectory' := hdirectory.execute hours hpacket (.inl hstep) request.place.locality w.now
  have hcollected' : Collected w.plan w.stores → Collected w.plan _ := fun hcollected =>
    hcollected.execute hours (.inl hstep) request.place.locality w.now
  unfold World.deliverStep
  simp only
  rw [hstep] at hdirectory' hcollected' ⊢
  obtain ⟨hcommitted', hinstalled'⟩ := record_activate w.history
    (w.stores request.place.locality) request.packet
    (World.execute (w.stores request.place.locality) .activate request.packet w.now).1
  refine ⟨fun hnone => ?_, fun found hfound => ?_⟩
  · rw [hcommitted', hcommitted] at hnone
    cases hnone
  · rw [hcommitted', hcommitted] at hfound
    cases hfound
    -- both the slot and the object are looked for at the locality of the activation
    have hlocality : ∀ location : ObjectLocation,
        location.locality = w.plan.destination.locality →
        request.place.locality = location.locality := fun _ heq => by rw [hplace, heq]
    have hself : ∀ store : Store σ Input, location.locality = w.plan.destination.locality →
        Function.update w.stores request.place.locality store location.locality = store := by
      intro store heq
      rw [← hlocality location heq, Function.update_self]
    cases hinstalled : w.history.installed with
    | none =>
      obtain ⟨hat, entry, prepared, hentry, htype, hauthority, hprepared, hmigration, hlocation⟩ :=
        hslot hinstalled
      rw [← hlocality location hat, ← hours.object] at hentry
      obtain ⟨hok, hset⟩ := activateMigration_ok hentry (htype.trans hours.objectType.symm)
        hprepared (hmigration.trans hours.migration.symm) (hlocation.trans hpacket.symm)
      have hsome : (World.record w.history (w.stores request.place.locality) .activate
          request.packet (World.execute (w.stores request.place.locality) .activate request.packet
            w.now).1).installed = some prepared.state := by
        rw [hinstalled']
        simp only [World.execute, hok, hentry, Option.bind_some, hprepared, Option.map_some]
      refine ⟨fun hnone => ?_, fun _ => .inl ⟨hat, activatedEntry entry prepared, ?_, hlocation,
        hauthority, rfl, rfl⟩, hdirectory'⟩
      · rw [hsome] at hnone
        cases hnone
      · change (Function.update w.stores request.place.locality _ location.locality).entryAt
          w.plan.object = some _
        rw [hself _ hat, ← hours.object]
        exact hset
    | some state =>
      have hstill : (World.record w.history (w.stores request.place.locality) .activate
          request.packet (World.execute (w.stores request.place.locality) .activate request.packet
            w.now).1).installed ≠ none := by
        rw [hinstalled']
        rcases (w.stores request.place.locality).activateMigration_cases request.packet with
          ⟨error, hsame⟩ | ⟨entry, prepared, hentry, -, hprepared, -, ⟨_, -, herror, -⟩ |
            ⟨-, -, hok, -⟩⟩
        · simp [World.execute, hsame, hinstalled]
        · simp [World.execute, herror, hinstalled]
        · simp [World.execute, hok, hentry, hprepared]
      refine ⟨fun hnone => absurd hnone hstill, fun _ => ?_, hdirectory'⟩
      rcases hresident (by rw [hinstalled]; simp) with hresident | hcollected
      · obtain ⟨hat, entry, hentry, hlocation, hauthority, hserves⟩ := hresident
        rw [← hlocality location hat, ← hours.object] at hentry
        obtain ⟨after, hafter, hauthority', hserves', hplaced⟩ :=
          activateMigration_serves _ request.packet hentry hserves
        refine .inl ⟨hat, after, ?_, ?_, hauthority'.trans hauthority, hserves'⟩
        · change (Function.update w.stores request.place.locality _ location.locality).entryAt
            w.plan.object = some _
          rw [hself _ hat, ← hours.object]
          exact hafter
        · rcases hplaced with hsame | hmoved
          · exact hsame.trans hlocation
          · exact hmoved.trans hpacket
      · exact .inr (hcollected' hcollected)

/-- The retirement runs at the source, away from the destination. -/
theorem Held.retire (hbase : Base w) (h : Held w) {attempt : Nat} {request : Request}
    {location : ObjectLocation} (hsent : w.calls attempt = .sent request)
    (hcommitted : w.history.committed = some location) (hstep : request.step = .retire)
    (hplace : request.place.locality ≠ location.locality)
    (hpacket : request.packet.fromLocation = location) :
    Held (w.deliverStep attempt request) := by
  have hours := hbase.protocol.ours attempt request hsent
  obtain ⟨hslot, hresident, hdirectory⟩ := h.after location hcommitted
  have hdirectory' := hdirectory.execute hours hpacket (.inr hstep) request.place.locality w.now
  have hcollected' : Collected w.plan w.stores → Collected w.plan _ := fun hcollected =>
    hcollected.execute hours (.inr hstep) request.place.locality w.now
  have hrecord : ∀ result, World.record w.history (w.stores request.place.locality) request.step
      request.packet result = w.history := by
    intro result
    rw [hstep]
    cases result <;> rfl
  have haway : ∀ store : Store σ Input,
      (Function.update w.stores request.place.locality store location.locality).entryAt
        w.plan.object = (w.stores location.locality).entryAt w.plan.object := by
    intro store
    rw [Function.update_of_ne hplace.symm]
  unfold World.deliverStep
  simp only [hrecord]
  refine ⟨fun hnone => ?_, fun found hfound => ?_⟩
  · change w.history.committed = none at hnone
    rw [hcommitted] at hnone
    cases hnone
  · change w.history.committed = some found at hfound
    rw [hcommitted] at hfound
    cases hfound
    refine ⟨fun hnone => (hslot hnone).of_eq (haway _), fun hinstalled => ?_, hdirectory'⟩
    rcases hresident hinstalled with hresident | hcollected
    · exact .inl (hresident.of_eq (haway _))
    · exact .inr (hcollected' hcollected)

/-- The commit is executed for a slot that is there. -/
theorem Held.commit (hbase : Base w) (hdecided : Decided w) (h : Held w) {attempt : Nat}
    {request : Request} {answer : MigrationPacket} (hsent : w.calls attempt = .sent request)
    (hnone : w.history.committed = none) (hstep : request.step = .commit)
    (hgave : w.history.gaveUp = false) (hkept : w.history.discarded = false)
    (hok : (World.execute (w.stores request.place.locality) request.step request.packet
      w.now).1 = .ok answer) : Held (w.deliverStep attempt request) := by
  have hours := hbase.protocol.ours attempt request hsent
  have heq : attempt = w.coordinator.attempt :=
    hbase.protocol.live_eq hgave (by rw [hsent]; rfl)
  obtain ⟨hat, entry, prepared, hentry, htype, hauthority, hprepared, hmigration, hlocation⟩ :=
    (h.before hnone hgave hkept).2 request (heq ▸ hsent) hstep
  obtain ⟨-, -, -, hinstalled, -⟩ := hdecided.before hnone
  have hsame : answer = request.packet := execute_packet hok (by rw [hstep]; simp)
  have hrecord : World.record w.history (w.stores request.place.locality) request.step
      request.packet (World.execute (w.stores request.place.locality) request.step request.packet
        w.now).1 = { w.history with committed := some request.packet.fromLocation } := by
    rw [hok, hstep, hsame]
    rfl
  unfold World.deliverStep
  simp only [hrecord]
  rw [hstep] at hok ⊢
  rcases (w.stores request.place.locality).commitMigration_cases request.packet w.now with
    ⟨error, hrefused⟩ | ⟨found, hfound, -, hlocal, -, -, htouch, hset⟩
  · simp only [World.execute, hrefused] at hok
    cases hok
  · rw [hbase.mailboxes.localId, hours.authority] at hlocal
    refine ⟨by simp, fun location hcommitted => ?_⟩
    cases hcommitted
    refine ⟨fun _ => ⟨hat, ?_⟩, fun hne => absurd hinstalled hne, ?_⟩
    · change ∃ entry prepared, (Function.update w.stores request.place.locality _
        request.packet.fromLocation.locality).entryAt w.plan.object = some entry ∧ _
      by_cases hself : request.packet.fromLocation.locality = request.place.locality
      · -- the destination is the authority: the commit leaves its slot alone
        rw [hself, ← hours.object] at hentry
        rw [hentry] at hfound
        cases hfound
        rw [hself, Function.update_self, ← hours.object]
        exact ⟨_, prepared, hset, htype, hauthority, hprepared, hmigration, hlocation⟩
      · rw [Function.update_of_ne hself]
        exact ⟨entry, prepared, hentry, htype, hauthority, hprepared, hmigration, hlocation⟩
    · intro after hafter
      change (Function.update w.stores request.place.locality _ w.plan.authority).entryAt
        w.plan.object = some after at hafter
      rw [hlocal, Function.update_self, ← hours.object] at hafter
      cases hset.symm.trans hafter
      rfl

/-- A step that does not commit, before any commit: only the preparation matters. -/
theorem Held.uncommitted (hbase : Base w) (hdecided : Decided w) {attempt : Nat}
    {request : Request} (hsent : w.calls attempt = .sent request)
    (hnone : w.history.committed = none)
    (hrefused : request.step = .commit → ∀ answer,
      (World.execute (w.stores request.place.locality) request.step request.packet
        w.now).1 ≠ .ok answer) : Held (w.deliverStep attempt request) := by
  have hrecord : World.record w.history (w.stores request.place.locality) request.step
      request.packet (World.execute (w.stores request.place.locality) request.step request.packet
        w.now).1 = w.history := by
    obtain ⟨hactivate, -⟩ := (hdecided.before hnone).1 attempt request hsent
    unfold World.record
    split
    · rfl
    case h_2 answer hok =>
      split
      case h_1 hcommit => exact absurd hok (hrefused hcommit answer)
      case h_2 hstep => exact absurd hstep hactivate
      case h_3 => rfl
  unfold World.deliverStep
  simp only [hrecord]
  refine ⟨fun _ hgave hkept => ?_, fun location hsome => ?_⟩
  · have heq : attempt = w.coordinator.attempt :=
      hbase.protocol.live_eq hgave (by rw [hsent]; rfl)
    subst heq
    change (_ → ∀ packet, Function.update w.calls w.coordinator.attempt _ w.coordinator.attempt = _ →
      _) ∧ ∀ found, Function.update w.calls w.coordinator.attempt _ w.coordinator.attempt = _ → _
    rw [Function.update_self]
    refine ⟨fun hphase packet hanswer => ?_, by simp⟩
    have hstep : request.step = .prepare := by
      rcases (hbase.protocol.latest request hsent).phase with hdone | hsome
      · rw [show w.coordinator.phase = .prepare from hphase] at hdone
        cases hdone
      · rw [show w.coordinator.phase = .prepare from hphase] at hsome
        exact (Option.some.inj hsome).symm
    have hok : (World.execute (w.stores request.place.locality) request.step request.packet
        w.now).1 = .ok packet := by
      cases hresult : (World.execute (w.stores request.place.locality) request.step request.packet
          w.now).1 with
      | error error =>
        rw [hresult] at hanswer
        cases hanswer
      | ok found =>
        rw [hresult] at hanswer
        cases hanswer
        rfl
    rw [hstep] at hok ⊢
    exact prepare_slotAt (hbase.mailboxes.localId _) (hbase.protocol.ours _ request hsent) hok
  · change w.history.committed = some location at hsome
    rw [hnone] at hsome
    cases hsome

theorem Held.deliverStep (hbase : Base w) (hdecided : Decided w) (h : Held w) {attempt : Nat}
    {request : Request} (hsent : w.calls attempt = .sent request)
    (htime : request.step = .commit →
      w.history.gaveUp = false ∧ w.history.discarded = false) :
    Held (w.deliverStep attempt request) := by
  cases hcommitted : w.history.committed with
  | some location =>
    obtain ⟨hgave, -, hpacket, hsteps, -, -⟩ := hdecided.after location hcommitted
    have heq : attempt = w.coordinator.attempt :=
      hbase.protocol.live_eq hgave (by rw [hsent]; rfl)
    subst heq
    have hlatest := hbase.protocol.latest request hsent
    have hlocation : request.packet.fromLocation = location := by rw [hlatest.packet, hpacket]
    rcases hsteps request hsent with hstep | hstep
    · exact h.activate hbase hsent hcommitted hstep (hlatest.destination (.inr hstep)) hlocation
    · obtain ⟨hplace, haway⟩ := hlatest.source hstep
      refine h.retire hbase hsent hcommitted hstep ?_ hlocation
      rw [hplace, ← hlocation]
      exact haway
  | none =>
    by_cases hsucceeds : request.step = .commit ∧ ∃ answer,
        (World.execute (w.stores request.place.locality) request.step request.packet
          w.now).1 = .ok answer
    · obtain ⟨hstep, answer, hok⟩ := hsucceeds
      exact h.commit hbase hdecided hsent hcommitted hstep (htime hstep).1 (htime hstep).2 hok
    · refine Held.uncommitted hbase hdecided hsent hcommitted fun hstep answer hok => ?_
      exact hsucceeds ⟨hstep, answer, hok⟩

/-- One step in time keeps the invariant. -/
theorem Held.step (hbase : Base w) (hdecided : Decided w) (h : Held w) {action : Action σ}
    (htime : inTime w action = true) (hnext : w.step action = some next) : Held next := by
  unfold inTime at htime
  rw [Bool.and_eq_true] at htime
  obtain ⟨hheard, htime⟩ := htime
  cases w.step_stepped hnext with
  | aside haside =>
    refine h.aside hbase hdecided (hbase.aside haside hnext) (hbase.moves haside hnext) ?_
    intro hsome hnone
    cases action with
    | expire locality order => simpa [hsome, hnone] using htime
    | _ => rfl
  | freeze domainAvailable hsent hstep =>
    exact h.aside hbase hdecided (deliverFreeze_aside hsent hstep domainAvailable)
      (deliverFreeze_moves hsent hstep domainAvailable) fun _ _ => rfl
  | execute domainAvailable hsent hstep =>
    refine h.deliverStep hbase hdecided hsent fun hcommit => ⟨?_, ?_⟩
    · simpa [commitHeard, hsent, hcommit] using hheard
    · simpa [hsent, hcommit] using htime
  | refuse => exact h.forget (.inr rfl)
  | lose => exact h.forget (.inl rfl)
  | observe sent rollbackSent hanswered => exact h.resumed (.answer hanswered) sent rollbackSent
  | timeout sent rollbackSent =>
    refine h.resumed (.timeout fun hcommit => ?_) sent rollbackSent
    simpa [commitHeard, hcommit] using hheard
  | drop => exact h.drop

/-- The three parts of the invariant together. -/
structure Backed (w : World σ) : Prop where
  base : Base w
  decided : Decided w
  held : Held w

theorem Initial.backed (h : Initial w) : Backed w := ⟨h.base, h.decided, h.held⟩

theorem Backed.step (h : Backed w) {action : Action σ} (htime : inTime w action = true)
    (hnext : w.step action = some next) : Backed next := by
  have hheard : commitHeard w action = true := by
    unfold inTime at htime
    exact (Bool.and_eq_true _ _ ▸ htime).1
  exact ⟨h.base.step hnext, h.decided.step h.base hheard hnext,
    h.held.step h.base h.decided htime hnext⟩

/-- In every run in time, whose start has no trace of the migration: once a location
    is committed, the destination holds the prepared slot until it is activated, and
    the locality the directory entry names holds the prepared or the resident
    object. -/
theorem committed_location_held {actions : List (Action σ)} {final : World σ} (hinit : Initial w)
    (htime : Along World.step (fun w action => inTime w action = true) w actions)
    (hrun : exec World.step w actions = some final) {location : ObjectLocation}
    (hcommitted : final.history.committed = some location) :
    (final.history.installed = none → SlotAt final.plan final.stores location) ∧
    ∀ entry, (final.stores final.plan.authority).entryAt final.plan.object = some entry →
      entry.location = location ∧
      (SlotAt final.plan final.stores location ∨ ResidentAt final.plan final.stores location) := by
  have hbacked : Backed final := exec_invariant Backed
    (fun w action next h => h.step) hinit.backed htime hrun
  obtain ⟨hslot, hresident, hdirectory⟩ := hbacked.held.after location hcommitted
  refine ⟨hslot, fun entry hentry => ⟨hdirectory entry hentry, ?_⟩⟩
  by_cases hinstalled : final.history.installed = none
  · exact .inl (hslot hinstalled)
  · rcases hresident hinstalled with hresident | hcollected
    · exact .inr hresident
    · cases hentry.symm.trans hcollected

/-! ### A migration of one byte -/

/-- The limits of the sample localities. -/
def sampleLimits : ObjectLimits where
  maxObjects := 4
  maxMailboxPerObject := 4
  maxResolverEntries := 4
  maxRoots := 4
  maxPlacementTickets := 4
  maxMigrations := 4
  maxPreparedMigrations := 4
  maxForwarders := 4
  maxRedirects := 4
  maxSnapshotBytes := 64
  maxSnapshotSegments := 4
  forwardingTtl := 10
  leaseTtl := 10
  leaseGrace := 10

/-- A type of objects whose state is one byte. -/
def sampleType : ObjectTypeId := ⟨1, u128_one⟩

/-- The object that migrates. -/
def sampleObject : ObjectId := ⟨⟨1, u128_one⟩, 1, u128_one⟩

/-- The locality that holds the object; it is also the authority. -/
def sampleSource : LocalityId := ⟨1⟩

/-- The locality it moves to. -/
def sampleDestination : LocalityId := ⟨2⟩

/-- An action that increments the byte. -/
def sampleWrite : ActionId := ⟨2, by decide⟩

/-- The registry of every locality: the byte is its own snapshot. -/
def sampleRegistry : ObjectRegistry UInt8 where
  types := AList.singleton sampleType
    { mobility := .migratable
      snapshotVersion := 1
      snapshotSchema := 1
      decoder := fun _ => .ok 0
      freezer := some fun state => (.ok [[state]], state)
      restorer := some fun snapshot _ =>
        match snapshot with
        | [[state]] => .ok state
        | _ => .error (.codec "snapshot") }
  actions := AList.singleton sampleWrite
    { objectType := sampleType
      decode := fun _ => none
      handler := .write fun _ state => (.ok [], state + 1) }
  placements := []

/-- A locality without objects. -/
def sampleStore (locality : LocalityId) : Store UInt8 Input where
  runId := ⟨1, u128_one⟩
  localId := locality
  limits := sampleLimits
  registry := sampleRegistry
  entries := ∅
  nextSlot := 1
  resolver := ∅
  resolverQueue := []
  rootCount := 0
  transferCount := 0
  placementCount := 0
  preparedCount := 0
  pendingTransfers := ∅
  retirements := []

/-- Where the object is at first. -/
def sampleLocation : ObjectLocation := ⟨sampleSource, ⟨0⟩, 1, 1, 1, by decide⟩

/-- The entry of the object at its source. -/
def sampleEntry : ObjectEntry UInt8 Input where
  objectType := sampleType
  authority := sampleSource
  location := sampleLocation
  state := some 7
  lifecycle := .resident
  prepared := none
  snapshotBytes := 0
  leases := ∅
  roots := 1
  inFlight := 0
  placementTickets := 0
  admission := .empty

/-- The migration. -/
def samplePlan : MigrationPacket where
  migration := ⟨sampleSource, 1, by decide⟩
  object := sampleObject
  objectType := sampleType
  authority := sampleSource
  fromLocation := sampleLocation
  destination := ⟨sampleDestination, ⟨0⟩⟩
  snapshotVersion := 1
  snapshotSchema := 1
  snapshot := []

/-- The world in which the migration has just been started. -/
def sampleWorld : World UInt8 where
  plan := samplePlan
  maxRedirects := 4
  now := 0
  stores := fun locality =>
    if locality = sampleSource then (sampleStore locality).setEntry sampleObject sampleEntry
    else sampleStore locality
  coordinator :=
    { packet := samplePlan
      authority := ⟨sampleSource, ⟨0⟩⟩
      original := sampleLocation
      prepared := none
      snapshotBytes := 0
      redirects := 0
      committed := false
      attempt := 0
      phase := .freeze }
  calls := fun attempt =>
    if attempt = 0 then .sent ⟨.freeze, sampleLocation.place, samplePlan⟩ else .idle
  running := []
  history := .start

theorem sampleWorld_entry {locality : LocalityId} {object : ObjectId}
    {entry : ObjectEntry UInt8 Input}
    (h : (sampleWorld.stores locality).entryAt object = some entry) : entry = sampleEntry := by
  have hempty : (sampleStore locality).entryAt object = none := rfl
  by_cases heq : locality = sampleSource
  · simp only [sampleWorld, if_pos heq] at h
    by_cases hobject : object = sampleObject
    · rw [hobject, entryAt_setEntry_self] at h
      exact (Option.some.inj h).symm
    · rw [entryAt_setEntry_ne _ _ hobject, hempty] at h
      cases h
  · simp only [sampleWorld, if_neg heq, hempty] at h
    cases h

theorem sampleWorld_initial : Initial sampleWorld where
  plan := rfl
  authority := rfl
  phase := rfl
  attempt := rfl
  sent := ⟨_, rfl⟩
  idle := fun attempt hpos => if_neg (Nat.ne_of_gt hpos)
  running := rfl
  history := rfl
  localId := by
    intro locality
    by_cases heq : locality = sampleSource
    · simp only [sampleWorld, if_pos heq]
      rfl
    · simp only [sampleWorld, if_neg heq]
      rfl
  tagged := by
    intro locality object entry hentry job hjob
    rw [sampleWorld_entry hentry] at hjob
    cases hjob
  calls := by
    intro locality object entry hentry
    rw [sampleWorld_entry hentry]
    rfl
  untouched := by
    intro locality entry hentry
    rw [sampleWorld_entry hentry]
    exact ⟨rfl, rfl⟩

/-- Freeze, prepare and commit are executed; the answer to the commit is on its way. -/
def sampleCommit : List (Action UInt8) :=
  [.deliver 0 true, .run 0 false, .finish 0, .observe 0 true true, .deliver 1 true,
    .observe 1 true true, .deliver 2 true]

/-- The coordinator hears about the commit and activates the destination. -/
def sampleActivate : List (Action UInt8) :=
  sampleCommit ++ [.observe 2 true true, .deliver 3 true]

/-- The deadline of the commit passes before its answer is seen: the coordinator rolls
    back the source and then the destination. -/
def sampleRollback : List (Action UInt8) :=
  sampleCommit ++ [.timeout true true, .deliver 3 true, .observe 3 true true, .deliver 4 true]

/-- The run of `sampleActivate` is in time, and the committed location is served. -/
theorem committed_location_held_activate :
    ∃ final location entry, exec World.step sampleWorld sampleActivate = some final ∧
      final.history.committed = some location ∧
      (final.stores final.plan.authority).entryAt final.plan.object = some entry ∧
      entry.location = location ∧
      (SlotAt final.plan final.stores location ∨
        ResidentAt final.plan final.stores location) := by
  have htime : Along World.step (fun w action => inTime w action = true) sampleWorld
      sampleActivate := by decide
  have hheld := (committed_location_held sampleWorld_initial htime rfl rfl).2 _ rfl
  exact ⟨_, _, _, rfl, rfl, rfl, hheld⟩

/-- The run of `sampleRollback` loses the object: its directory entry names a
    destination that holds neither the slot nor the object. -/
theorem committed_location_lost :
    ∃ final location entry, Initial sampleWorld ∧
      exec World.step sampleWorld sampleRollback = some final ∧
      final.history.committed = some location ∧ final.history.installed = none ∧
      (final.stores final.plan.authority).entryAt final.plan.object = some entry ∧
      entry.location = location ∧
      ¬ SlotAt final.plan final.stores location ∧
      ¬ ResidentAt final.plan final.stores location := by
  refine ⟨_, _, _, sampleWorld_initial, rfl, rfl, rfl, rfl, rfl, ?_, ?_⟩
  · rintro ⟨-, entry, prepared, hentry, -, -, hprepared, -⟩
    have hfound : some entry = some _ := hentry.symm.trans rfl
    cases hfound
    cases hprepared
  · rintro ⟨-, entry, hentry, hlocation, -, hserves⟩
    have hfound : some entry = some _ := hentry.symm.trans rfl
    cases hfound
    cases hserves.lifecycle

end Hataori.Migration
