import Hataori.Migration.Held

/-!
# What a migration reports

`RuntimeClient::migrate` answers at once if the resolver, or else the handle, names the
destination already, and starts a `MigrationFuture` if not. The future is followed here among
stores that change in any way between its own steps: a migration that completes has had its
location in the directory, because its commit has put it there. The answer at once is as good as
the cache it is read off.
-/

namespace Hataori.Migration

open Hataori.Runtime Hataori.Object Lib.Machine

variable {σ : Type}

/-- A call of `migrate`: who calls, the number drawn for the migration, what the handle says,
    its lease included, and where the object is to go. -/
structure MigrateCall where
  caller : LocalityId
  migration : RequestId
  object : ObjectId
  objectType : ObjectTypeId
  location : ObjectLocation
  lease : ObjectLocation
  destination : Place
  deriving DecidableEq, Repr

/-- A migration under way. -/
structure Underway (σ : Type) where
  maxRedirects : Nat
  stores : LocalityId → Store σ Input
  coordinator : Coordinator
  calls : Nat → CallState

/-- What happens next: something that others do to the store of a locality, or a step of the
    migration. A step is delivered when its job runs. -/
inductive Happening (σ : Type) where
  | others (locality : LocalityId) (store : Store σ Input)
  | deliver (attempt : Nat) (contended : Bool) (now : Nat)
  | refuse (attempt : Nat) (reply : Reply)
  | lose (attempt : Nat)
  | observe (attempt : Nat) (sent rollbackSent : Bool)
  | timeout (sent rollbackSent : Bool)
  | drop

/-- `migrate` answers, or starts a migration. -/
inductive Migrated (σ : Type) where
  | ready (report : MigrationReport)
  | started (underway : Underway σ)

/-- A reply that carries a packet. -/
def Reply.isOk : Reply → Bool
  | .ok _ => true
  | _ => false

namespace Underway

/-- Moves a call. -/
def setCall (u : Underway σ) (attempt : Nat) (state : CallState) : Underway σ :=
  { u with calls := Function.update u.calls attempt state }

/-- The step as its locality carries it out. -/
def carryOut (store : Store σ Input) (request : Request) (contended : Bool) (now : Nat) :
    Except ActionError MigrationPacket × Store σ Input :=
  match request.step with
  | .freeze => store.freezeMigration request.packet contended now
  | step => World.execute store step request.packet now

/-- A step is carried out and answered. -/
def carry (u : Underway σ) (attempt : Nat) (request : Request) (contended : Bool) (now : Nat) :
    Underway σ :=
  let result := carryOut (u.stores request.place.locality) request contended now
  { u with
    stores := Function.update u.stores request.place.locality result.2
    calls := Function.update u.calls attempt (.answered (.ofResult result.1)) }

/-- The coordinator goes on with a reply. -/
def proceed (u : Underway σ) (reply : Reply) (sent rollbackSent : Bool) : Underway σ :=
  let result := u.coordinator.poll u.maxRedirects reply sent rollbackSent
  let next := { u with coordinator := result.1 }
  match result.2 with
  | none => next
  | some request => next.setCall result.1.attempt (.sent request)

/-- One step; `none` if it cannot happen. -/
def step (u : Underway σ) : Happening σ → Option (Underway σ)
  | .others locality store =>
    if store.localId = locality then
      some { u with stores := Function.update u.stores locality store }
    else none
  | .deliver attempt contended now =>
    match u.calls attempt with
    | .sent request => some (u.carry attempt request contended now)
    | _ => none
  | .refuse attempt reply =>
    match u.calls attempt with
    | .sent _ => if reply.isOk then none else some (u.setCall attempt (.answered reply))
    | _ => none
  | .lose attempt => some (u.setCall attempt .gone)
  | .observe attempt sent rollbackSent =>
    match u.calls attempt with
    | .answered reply =>
      let consumed := u.setCall attempt .gone
      some (if attempt = u.coordinator.attempt then consumed.proceed reply sent rollbackSent
        else consumed)
    | _ => none
  | .timeout sent rollbackSent => some (u.proceed .failed sent rollbackSent)
  | .drop =>
    if u.coordinator.phase.step = none then none
    else some { u with coordinator := { u.coordinator with phase := .done .dropped } }

end Underway

namespace MigrateCall

/-- Where the directory has the object. -/
def directory (call : MigrateCall) (stores : LocalityId → Store σ Input) :
    Option ObjectLocation :=
  ((stores call.lease.locality).entryAt call.object).map fun entry => entry.location

/-- Where the caller takes the object to be: `resolve`, or else the handle. -/
def origin (call : MigrateCall) (stores : LocalityId → Store σ Input) : ObjectLocation :=
  ((stores call.caller).resolve call.object).getD call.location

/-- The packet of the first step. -/
def packet (call : MigrateCall) (origin : ObjectLocation) (version schema : Nat) :
    MigrationPacket where
  migration := call.migration
  object := call.object
  objectType := call.objectType
  authority := call.lease.locality
  fromLocation := origin
  destination := call.destination
  snapshotVersion := version
  snapshotSchema := schema
  snapshot := []

/-- `MigrationFuture::new`, with the freeze on its way. -/
def start (call : MigrateCall) (stores : LocalityId → Store σ Input) (origin : ObjectLocation)
    (version schema : Nat) : Underway σ where
  maxRedirects := (stores call.caller).limits.maxRedirects
  stores := stores
  coordinator :=
    { packet := call.packet origin version schema
      authority := call.lease.place
      original := origin
      prepared := none
      snapshotBytes := 0
      redirects := 0
      committed := false
      attempt := 0
      phase := .freeze }
  calls :=
    Function.update (fun _ => .idle) 0
      (.sent ⟨.freeze, origin.place, call.packet origin version schema⟩)

/-- `RuntimeClient::migrate`; `admitted` says whether `begin_migration` and the submission of
    the freeze succeed. An error is `none`. -/
def migrate (call : MigrateCall) (stores : LocalityId → Store σ Input) (admitted : Bool) :
    Option (Migrated σ) :=
  let origin := call.origin stores
  if origin.place = call.destination then some (.ready ⟨call.object, origin, origin, 0⟩)
  else
    match (stores call.caller).registry.types.lookup call.objectType with
    | none => none
    | some registration =>
      if registration.mobility = .pinned then none
      else if admitted then
        some (.started
          (call.start stores origin registration.snapshotVersion registration.snapshotSchema))
      else none

/-- The call resolves to a report after these happenings. -/
def Resolves (call : MigrateCall) (stores : LocalityId → Store σ Input) (admitted : Bool)
    (happenings : List (Happening σ)) (report : MigrationReport) : Prop :=
  match call.migrate stores admitted with
  | none => False
  | some (.ready answer) => happenings = [] ∧ report = answer
  | some (.started underway) => ∃ final, exec Underway.step underway happenings = some final ∧
      final.coordinator.phase = .done (.completed report)

/-- Where the directory had the object at each instant of the call, the last included. -/
def seen (call : MigrateCall) (stores : LocalityId → Store σ Input) (admitted : Bool)
    (happenings : List (Happening σ)) : List (Option ObjectLocation) :=
  match call.migrate stores admitted with
  | some (.started underway) =>
    journal Underway.step (fun u _ => [call.directory u.stores]) underway happenings ++
      ((exec Underway.step underway happenings).map fun final =>
        call.directory final.stores).toList
  | _ => [call.directory stores]

/-- The report is true: the directory had the object at the location it names at some instant
    of the call, and that is at the destination. -/
def Truthful (call : MigrateCall) (stores : LocalityId → Store σ Input) (admitted : Bool)
    (happenings : List (Happening σ)) (report : MigrationReport) : Prop :=
  some report.destination ∈ call.seen stores admitted happenings ∧
    report.destination.place = call.destination

end MigrateCall

/-! ## What the coordinator knows -/

/-- What the phase of a coordinator says about its packet and the directory, whose locations so
    far are given. -/
def Knows (call : MigrateCall) (seen : List (Option ObjectLocation)) (c : Coordinator) : Prop :=
  match c.phase with
  | .freeze | .prepare => c.packet.authority = call.lease.locality ∧
      c.packet.object = call.object ∧ c.packet.destination = call.destination
  | .commit => (c.packet.authority = call.lease.locality ∧ c.packet.object = call.object) ∧
      c.prepared = some c.packet.fromLocation ∧ c.packet.fromLocation.place = call.destination
  | .activate | .retire => ∃ location, c.prepared = some location ∧ some location ∈ seen ∧
      location.place = call.destination
  | .done (.completed report) =>
    some report.destination ∈ seen ∧ report.destination.place = call.destination
  | _ => True

/-- What a packet says that answers the call the coordinator waits for. -/
def Answers (call : MigrateCall) (seen : List (Option ObjectLocation)) (c : Coordinator)
    (packet : MigrationPacket) : Prop :=
  match c.phase with
  | .freeze => packet.authority = call.lease.locality ∧ packet.object = call.object ∧
      packet.destination = call.destination
  | .prepare => (packet.authority = call.lease.locality ∧ packet.object = call.object) ∧
      packet.fromLocation.place = call.destination
  | .commit => packet.fromLocation = c.packet.fromLocation ∧ some packet.fromLocation ∈ seen
  | _ => True

/-- The coordinator waits for the request it has sent last, or for nothing. -/
structure Goes (result : Coordinator × Option Request) : Prop where
  none : result.2 = none → result.1.phase.step = none
  some : ∀ request, result.2 = some request →
    result.1.phase.step = some request.step ∧ request.packet = result.1.packet

section Polls

variable {call : MigrateCall} {seen : List (Option ObjectLocation)} {c : Coordinator}
  {reply : Reply}

theorem finish_goes (c : Coordinator) (result : Result) : Goes (c.finish result) :=
  ⟨fun _ => rfl, fun _ h => by cases h⟩

theorem submit_goes (c : Coordinator) {step : Step} (place : Place) {phase : Phase}
    (hphase : phase.step = some step) : Goes (c.submit step place c.packet phase) := by
  refine ⟨(fun h => by cases h), fun request hrequest => ?_⟩
  cases hrequest
  exact ⟨hphase, rfl⟩

/-- A coordinator that rolls back, or ends without a report, promises nothing. -/
theorem startRollback_sound (call : MigrateCall) (seen : List (Option ObjectLocation))
    (c : Coordinator) (destination sent : Bool) :
    Knows call seen (c.startRollback destination sent).1 ∧
      Goes (c.startRollback destination sent) := by
  unfold Coordinator.startRollback
  split
  · exact ⟨trivial, submit_goes c _ rfl⟩
  · exact ⟨trivial, finish_goes c _⟩

theorem pollFreeze_sound (hphase : c.phase = .freeze) (hknows : Knows call seen c)
    (hanswers : ∀ packet, reply = .ok packet → Answers call seen c packet) (maxRedirects : Nat)
    (sent rollbackSent : Bool) :
    Knows call seen (c.pollFreeze maxRedirects reply sent rollbackSent).1 ∧
      Goes (c.pollFreeze maxRedirects reply sent rollbackSent) := by
  unfold Coordinator.pollFreeze
  simp only [Knows, hphase] at hknows
  split
  · next packet =>
    have hpacket := hanswers packet rfl
    simp only [Answers, hphase] at hpacket
    split
    · exact startRollback_sound call seen c false rollbackSent
    · split
      · exact ⟨hpacket, submit_goes { c with snapshotBytes := _, packet := packet } _ rfl⟩
      · exact startRollback_sound call seen _ false rollbackSent
  · split
    · split
      · exact ⟨hknows, submit_goes { c with
          redirects := _, packet := { c.packet with fromLocation := _ }, original := _ } _ rfl⟩
      · exact ⟨trivial, finish_goes _ _⟩
    · exact ⟨trivial, finish_goes c _⟩
  · exact ⟨trivial, finish_goes c _⟩

theorem pollPrepare_sound (hphase : c.phase = .prepare)
    (hanswers : ∀ packet, reply = .ok packet → Answers call seen c packet)
    (sent rollbackSent : Bool) :
    Knows call seen (c.pollPrepare reply sent rollbackSent).1 ∧
      Goes (c.pollPrepare reply sent rollbackSent) := by
  unfold Coordinator.pollPrepare
  split
  · next packet =>
    have hpacket := hanswers packet rfl
    simp only [Answers, hphase] at hpacket
    dsimp only
    split
    · exact ⟨⟨hpacket.1, rfl, hpacket.2⟩, submit_goes { c with
        prepared := some packet.fromLocation, packet := packet } _ rfl⟩
    · exact startRollback_sound call seen _ true rollbackSent
  · exact startRollback_sound call seen c false rollbackSent

theorem pollCommit_sound (hphase : c.phase = .commit) (hknows : Knows call seen c)
    (hanswers : ∀ packet, reply = .ok packet → Answers call seen c packet)
    (sent rollbackSent : Bool) :
    Knows call seen (c.pollCommit reply sent rollbackSent).1 ∧
      Goes (c.pollCommit reply sent rollbackSent) := by
  unfold Coordinator.pollCommit
  simp only [Knows, hphase] at hknows
  obtain ⟨-, hprepared, hplace⟩ := hknows
  split
  · next packet =>
    obtain ⟨hsame, hseen⟩ : packet.fromLocation = c.packet.fromLocation ∧
        some packet.fromLocation ∈ seen := by
      simpa only [Answers, hphase] using hanswers packet rfl
    dsimp only
    split
    · refine ⟨⟨packet.fromLocation, ?_, hseen, hsame ▸ hplace⟩, submit_goes { c with
        committed := true, packet := packet } _ rfl⟩
      rw [hsame]
      exact hprepared
    · exact ⟨trivial, finish_goes _ _⟩
  · exact startRollback_sound call seen c true rollbackSent

theorem pollActivate_sound (hphase : c.phase = .activate) (hknows : Knows call seen c)
    (reply : Reply) (sent : Bool) :
    Knows call seen (c.pollActivate reply sent).1 ∧ Goes (c.pollActivate reply sent) := by
  unfold Coordinator.pollActivate
  simp only [Knows, hphase] at hknows
  obtain ⟨location, hprepared, hseen, hplace⟩ := hknows
  split
  · next packet =>
    dsimp only
    split
    · refine ⟨?_, finish_goes _ _⟩
      simp only [Knows, Coordinator.finish, Coordinator.report, hprepared, Option.getD_some]
      exact ⟨hseen, hplace⟩
    · split
      · exact ⟨⟨location, hprepared, hseen, hplace⟩, submit_goes { c with packet := packet } _ rfl⟩
      · exact ⟨trivial, finish_goes _ _⟩
  · exact ⟨trivial, finish_goes c _⟩

theorem pollRetire_sound (hphase : c.phase = .retire) (hknows : Knows call seen c)
    (maxRedirects : Nat) (sent rollbackSent : Bool) :
    Knows call seen (c.poll maxRedirects reply sent rollbackSent).1 ∧
      Goes (c.poll maxRedirects reply sent rollbackSent) := by
  simp only [Knows, hphase] at hknows
  obtain ⟨location, hprepared, hseen, hplace⟩ := hknows
  cases reply with
  | ok packet =>
    simp only [Coordinator.poll, hphase]
    refine ⟨?_, finish_goes c _⟩
    simp only [Knows, Coordinator.finish, Coordinator.report, hprepared, Option.getD_some]
    exact ⟨hseen, hplace⟩
  | moved object location =>
    simp only [Coordinator.poll, hphase]
    exact ⟨trivial, finish_goes c _⟩
  | failed =>
    simp only [Coordinator.poll, hphase]
    exact ⟨trivial, finish_goes c _⟩

theorem pollRollbackSource_sound (call : MigrateCall) (seen : List (Option ObjectLocation))
    (c : Coordinator) (destination : Bool) (reply : Reply) (sent : Bool) :
    Knows call seen (c.pollRollbackSource destination reply sent).1 ∧
      Goes (c.pollRollbackSource destination reply sent) := by
  unfold Coordinator.pollRollbackSource
  split
  · split
    · exact ⟨trivial, submit_goes c _ rfl⟩
    · exact ⟨trivial, finish_goes c _⟩
  · exact ⟨trivial, finish_goes c _⟩

/-- Whatever the reply, the coordinator goes on with what it knows. -/
theorem poll_sound (hknows : Knows call seen c)
    (hanswers : ∀ packet, reply = .ok packet → Answers call seen c packet) (maxRedirects : Nat)
    (sent rollbackSent : Bool) :
    Knows call seen (c.poll maxRedirects reply sent rollbackSent).1 ∧
      Goes (c.poll maxRedirects reply sent rollbackSent) := by
  cases hphase : c.phase with
  | freeze =>
    have hpoll := pollFreeze_sound hphase hknows hanswers maxRedirects sent rollbackSent
    simpa only [Coordinator.poll, hphase] using hpoll
  | prepare =>
    have hpoll := pollPrepare_sound hphase hanswers sent rollbackSent
    simpa only [Coordinator.poll, hphase] using hpoll
  | commit =>
    have hpoll := pollCommit_sound hphase hknows hanswers sent rollbackSent
    simpa only [Coordinator.poll, hphase] using hpoll
  | activate =>
    have hpoll := pollActivate_sound hphase hknows reply sent
    simpa only [Coordinator.poll, hphase] using hpoll
  | retire => exact pollRetire_sound hphase hknows maxRedirects sent rollbackSent
  | rollbackSource destination =>
    have hpoll := pollRollbackSource_sound call seen c destination reply sent
    simpa only [Coordinator.poll, hphase] using hpoll
  | rollbackDestination =>
    simp only [Coordinator.poll, hphase]
    exact ⟨trivial, finish_goes c _⟩
  | done result =>
    simp only [Coordinator.poll, hphase]
    refine ⟨hknows, fun _ => ?_, fun _ h => by cases h⟩
    rw [hphase]
    rfl

end Polls

namespace Underway

variable {call : MigrateCall} {u next : Underway σ} {log seen more : List (Option ObjectLocation)}
  {c : Coordinator}

theorem knows_mono (h : Knows call seen c) (hmore : ∀ found ∈ seen, found ∈ more) :
    Knows call more c := by
  unfold Knows at h ⊢
  split at h
  · exact h
  · exact h
  · exact h
  · obtain ⟨location, hprepared, hseen, hplace⟩ := h
    exact ⟨location, hprepared, hmore _ hseen, hplace⟩
  · obtain ⟨location, hprepared, hseen, hplace⟩ := h
    exact ⟨location, hprepared, hmore _ hseen, hplace⟩
  · exact ⟨hmore _ h.1, h.2⟩
  · trivial

theorem answers_mono {packet : MigrationPacket} (h : Answers call seen c packet)
    (hmore : ∀ found ∈ seen, found ∈ more) : Answers call more c packet := by
  unfold Answers at h ⊢
  split at h
  · exact h
  · exact h
  · exact ⟨h.1, hmore _ h.2⟩
  · trivial

/-! ## The run -/

/-- The coordinator knows what it should of the directory up to now, and so does the answer to
    the call it waits for. -/
structure Sound (call : MigrateCall) (u : Underway σ) (log : List (Option ObjectLocation)) :
    Prop where
  localId : ∀ locality, (u.stores locality).localId = locality
  knows : Knows call (log ++ [call.directory u.stores]) u.coordinator
  sent : ∀ request, u.calls u.coordinator.attempt = .sent request →
    u.coordinator.phase.step = none ∨ (u.coordinator.phase.step = some request.step ∧
      request.packet = u.coordinator.packet)
  answered : ∀ packet, u.calls u.coordinator.attempt = .answered (.ok packet) →
    Answers call (log ++ [call.directory u.stores]) u.coordinator packet

theorem carryOut_touches (store : Store σ Input) (request : Request) (contended : Bool)
    (now : Nat) :
    Store.Touches request.packet.object store (carryOut store request contended now).2 := by
  unfold carryOut
  split
  · exact store.freezeMigration_touches _ _ _
  · exact execute_touches store _ _ _

/-- A step that is carried out for the coordinator has an answer it can use. -/
theorem carryOut_answers {request : Request} {contended : Bool} {now : Nat}
    {packet : MigrationPacket} (hlocal : ∀ locality, (u.stores locality).localId = locality)
    (hknows : Knows call seen u.coordinator)
    (hstep : u.coordinator.phase.step = some request.step)
    (hpacket : request.packet = u.coordinator.packet)
    (hok : (carryOut (u.stores request.place.locality) request contended now).1 = .ok packet)
    (hnow : call.directory (Function.update u.stores request.place.locality
      (carryOut (u.stores request.place.locality) request contended now).2) ∈ more) :
    Answers call more u.coordinator packet := by
  have hhere := hlocal request.place.locality
  generalize u.stores request.place.locality = store at hok hnow hhere
  cases hphase : u.coordinator.phase with
  | freeze =>
    rw [hphase] at hstep
    have hfreeze : request.step = .freeze := (Option.some.inj hstep).symm
    simp only [Knows, hphase] at hknows
    simp only [Answers, hphase]
    simp only [carryOut, hfreeze, hpacket] at hok
    rcases store.freezeMigration_cases u.coordinator.packet contended now with ⟨error, hsame⟩ |
      ⟨_, _, _, -, -, -, -, ⟨error, -, herror, -⟩ | ⟨error, _, _, -, herror, -⟩ |
        ⟨_, snapshot, bytes, -, -, hanswer, -⟩⟩
    · rw [hsame] at hok
      cases hok
    · rw [herror] at hok
      cases hok
    · rw [herror] at hok
      cases hok
    · rw [hanswer] at hok
      cases hok
      exact hknows
  | prepare =>
    rw [hphase] at hstep
    have hprepare : request.step = .prepare := (Option.some.inj hstep).symm
    simp only [Knows, hphase] at hknows
    simp only [Answers, hphase]
    simp only [carryOut, hprepare, World.execute, hpacket] at hok
    obtain ⟨-, ⟨error, herror, -⟩ | ⟨location, _, _, _, _, hanswer, hdestination, hlocality,
      hdomain, -⟩⟩ := store.prepareMigration_cases u.coordinator.packet now
    · rw [herror] at hok
      cases hok
    · rw [hanswer] at hok
      cases hok
      refine ⟨⟨hknows.1, hknows.2.1⟩, ?_⟩
      rw [← hknows.2.2]
      simp only [ObjectLocation.place, hlocality, hdomain, ← hdestination]
  | commit =>
    rw [hphase] at hstep
    have hcommit : request.step = .commit := (Option.some.inj hstep).symm
    simp only [Knows, hphase] at hknows
    simp only [Answers, hphase]
    simp only [carryOut, hcommit, World.execute, hpacket] at hok hnow
    rcases store.commitMigration_cases u.coordinator.packet now with ⟨error, hsame⟩ |
      ⟨entry, -, -, hauthority, -, hanswer, -, hafter⟩
    · rw [hsame] at hok
      cases hok
    · rw [hanswer] at hok
      cases hok
      refine ⟨rfl, ?_⟩
      have hplace : call.lease.locality = request.place.locality := by
        rw [← hhere, ← hauthority, hknows.1.1]
      rw [hknows.1.2] at hafter
      rw [MigrateCall.directory, hplace, Function.update_self, hafter] at hnow
      exact hnow
  | activate => simp only [Answers, hphase]
  | retire => simp only [Answers, hphase]
  | rollbackSource destination => simp only [Answers, hphase]
  | rollbackDestination => simp only [Answers, hphase]
  | done result => simp only [Answers, hphase]

theorem answers_of_done (seen : List (Option ObjectLocation)) (packet : MigrationPacket)
    (h : c.phase.step = none) : Answers call seen c packet := by
  unfold Answers
  split
  all_goals first
    | trivial
    | next hphase =>
      rw [hphase] at h
      cases h

/-- A state in which the coordinator has polled a reply, or was dropped. -/
theorem Sound.polled (hlocal : ∀ locality, (u.stores locality).localId = locality)
    {result : Coordinator × Option Request}
    (hknows : Knows call (log ++ [call.directory u.stores]) result.1) (hgoes : Goes result)
    (calls : Nat → CallState) :
    (match result.2 with
      | none => { u with coordinator := result.1, calls := calls }
      | some request => setCall { u with coordinator := result.1, calls := calls }
          result.1.attempt (.sent request) : Underway σ).Sound call
      (log ++ [call.directory u.stores]) := by
  have hmore : Knows call (log ++ [call.directory u.stores] ++ [call.directory u.stores]) result.1 :=
    knows_mono hknows fun found hfound => List.mem_append_left _ hfound
  cases hrequest : result.2 with
  | none =>
    have hdone := hgoes.none hrequest
    exact ⟨hlocal, hmore, fun _ _ => .inl hdone, fun packet _ => answers_of_done _ packet hdone⟩
  | some request =>
    refine ⟨hlocal, hmore, fun found hfound => ?_, fun packet hpacket => ?_⟩
    · simp only [setCall, Function.update_self] at hfound
      cases hfound
      exact .inr (hgoes.some request hrequest)
    · simp only [setCall, Function.update_self] at hpacket
      cases hpacket

/-- What the others do to the stores changes the instant only. -/
theorem Sound.moved (h : u.Sound call log) {stores : LocalityId → Store σ Input}
    (hlocal : ∀ locality, (stores locality).localId = locality) :
    ({ u with stores := stores } : Underway σ).Sound call (log ++ [call.directory u.stores]) := by
  have hmore : ∀ found ∈ log ++ [call.directory u.stores],
      found ∈ log ++ [call.directory u.stores] ++ [call.directory stores] :=
    fun found hfound => List.mem_append_left _ hfound
  exact ⟨hlocal, knows_mono h.knows hmore, h.sent,
    fun packet hpacket => answers_mono (h.answered packet hpacket) hmore⟩

/-- A call that is not sent and not answered with a packet now. -/
theorem Sound.setCall (h : u.Sound call log) (attempt : Nat) {state : CallState}
    (hsent : ∀ request, state ≠ .sent request) (hanswered : ∀ packet, state ≠ .answered (.ok packet)) :
    (u.setCall attempt state).Sound call (log ++ [call.directory u.stores]) := by
  have hmoved := h.moved h.localId
  refine ⟨hmoved.localId, hmoved.knows, fun request hrequest => ?_, fun packet hpacket => ?_⟩
  · by_cases heq : u.coordinator.attempt = attempt
    · simp only [Underway.setCall, heq, Function.update_self] at hrequest
      exact absurd hrequest (hsent request)
    · simp only [Underway.setCall, Function.update_of_ne heq] at hrequest
      exact hmoved.sent request hrequest
  · by_cases heq : u.coordinator.attempt = attempt
    · simp only [Underway.setCall, heq, Function.update_self] at hpacket
      exact absurd hpacket (hanswered packet)
    · simp only [Underway.setCall, Function.update_of_ne heq] at hpacket
      exact hmoved.answered packet hpacket

theorem localId_update {stores : LocalityId → Store σ Input}
    (hlocal : ∀ locality, (stores locality).localId = locality) {changed : LocalityId}
    {store : Store σ Input} (hstore : store.localId = changed) (locality : LocalityId) :
    (Function.update stores changed store locality).localId = locality := by
  by_cases heq : locality = changed
  · rw [heq, Function.update_self, hstore]
  · rw [Function.update_of_ne heq]
    exact hlocal locality

/-- A step is carried out somewhere. -/
theorem Sound.carry (h : u.Sound call log) {attempt : Nat} {request : Request}
    (hsent : u.calls attempt = .sent request) (contended : Bool) (now : Nat) :
    (u.carry attempt request contended now).Sound call (log ++ [call.directory u.stores]) := by
  have htouch := carryOut_touches (u.stores request.place.locality) request contended now
  have hlocal := localId_update h.localId (htouch.localId.trans (h.localId request.place.locality))
  have hmoved := h.moved hlocal
  refine ⟨hlocal, hmoved.knows, fun found hfound => ?_, fun packet hpacket => ?_⟩
  · by_cases heq : u.coordinator.attempt = attempt
    · simp only [Underway.carry, heq, Function.update_self] at hfound
      cases hfound
    · simp only [Underway.carry, Function.update_of_ne heq] at hfound
      exact hmoved.sent found hfound
  · by_cases heq : u.coordinator.attempt = attempt
    · simp only [Underway.carry, heq, Function.update_self, CallState.answered.injEq] at hpacket
      rcases h.sent request (heq ▸ hsent) with hdone | ⟨hstep, hsame⟩
      · exact answers_of_done _ packet hdone
      · have hok : (carryOut (u.stores request.place.locality) request contended now).1 =
            .ok packet := by
          revert hpacket
          generalize (carryOut (u.stores request.place.locality) request contended now).1 = result
          intro hpacket
          cases result with
          | error error => cases hpacket
          | ok answer =>
            cases hpacket
            rfl
        exact carryOut_answers (u := u) h.localId h.knows hstep hsame hok
          (List.mem_append_right _ (List.mem_singleton_self _))
    · simp only [Underway.carry, Function.update_of_ne heq] at hpacket
      exact hmoved.answered packet hpacket

theorem Sound.step (h : u.Sound call log) {happening : Happening σ}
    (hstep : u.step happening = some next) : next.Sound call (log ++ [call.directory u.stores]) := by
  cases happening with
  | others locality store =>
    simp only [Underway.step] at hstep
    split at hstep
    · next hstore =>
      cases hstep
      exact h.moved (localId_update h.localId hstore)
    · cases hstep
  | deliver attempt contended now =>
    simp only [Underway.step] at hstep
    split at hstep
    · next request hsent =>
      cases hstep
      exact h.carry hsent contended now
    · cases hstep
  | refuse attempt reply =>
    simp only [Underway.step] at hstep
    split at hstep
    · split at hstep
      · cases hstep
      · next hreply =>
        cases hstep
        refine h.setCall attempt (fun _ hsent => by cases hsent) fun packet hpacket => ?_
        cases hpacket
        exact hreply rfl
    · cases hstep
  | lose attempt =>
    cases hstep
    exact h.setCall attempt (fun _ hsent => by cases hsent) fun _ hpacket => by cases hpacket
  | observe attempt sent rollbackSent =>
    simp only [Underway.step] at hstep
    split at hstep
    · next reply hanswered =>
      cases hstep
      split
      · next heq =>
        subst heq
        have hpoll := poll_sound h.knows (fun packet hpacket => h.answered packet (hpacket ▸ hanswered))
          u.maxRedirects sent rollbackSent
        exact Sound.polled h.localId hpoll.1 hpoll.2
          (Function.update u.calls u.coordinator.attempt .gone)
      · exact h.setCall attempt (fun _ hsent => by cases hsent) fun _ hpacket => by cases hpacket
    · cases hstep
  | timeout sent rollbackSent =>
    cases hstep
    have hanswers : ∀ packet, Reply.failed = .ok packet →
        Answers call (log ++ [call.directory u.stores]) u.coordinator packet :=
      fun _ hpacket => by cases hpacket
    have hpoll := poll_sound h.knows hanswers u.maxRedirects sent rollbackSent
    exact Sound.polled h.localId hpoll.1 hpoll.2 u.calls
  | drop =>
    simp only [Underway.step] at hstep
    split at hstep
    · cases hstep
    · cases hstep
      have hgoes : Goes ({ u.coordinator with phase := .done .dropped }, none) :=
        ⟨fun _ => rfl, fun _ hrequest => by cases hrequest⟩
      have hknows : Knows call (log ++ [call.directory u.stores])
          { u.coordinator with phase := .done .dropped } := trivial
      exact Sound.polled h.localId hknows hgoes u.calls

end Underway

namespace MigrateCall

variable {stores : LocalityId → Store σ Input}

theorem start_sound (call : MigrateCall) (hlocal : ∀ locality, (stores locality).localId = locality)
    (origin : ObjectLocation) (version schema : Nat) :
    (call.start stores origin version schema).Sound call [] := by
  refine ⟨hlocal, ⟨rfl, rfl, rfl⟩, fun request hrequest => ?_, fun packet hpacket => ?_⟩
  · simp only [start, Function.update_self] at hrequest
    cases hrequest
    exact .inr ⟨rfl, rfl⟩
  · simp only [start, Function.update_self] at hpacket
    cases hpacket

/-- A migration that is started and completes reports the truth. -/
theorem started_truthful (call : MigrateCall)
    (hlocal : ∀ locality, (stores locality).localId = locality) {origin : ObjectLocation}
    {version schema : Nat} {happenings : List (Happening σ)} {final : Underway σ}
    {report : MigrationReport}
    (hrun : exec Underway.step (call.start stores origin version schema) happenings = some final)
    (hdone : final.coordinator.phase = .done (.completed report)) :
    some report.destination ∈ journal Underway.step (fun u _ => [call.directory u.stores])
        (call.start stores origin version schema) happenings ++ [call.directory final.stores] ∧
      report.destination.place = call.destination := by
  have hsound := exec_journal (fun u log => u.Sound call log)
    (fun _ _ _ _ hsound _ hstep => hsound.step hstep) (call.start_sound hlocal origin version schema)
    (along_true _ _ _) hrun
  have hknows := hsound.knows
  simp only [Knows, hdone, List.nil_append] at hknows
  exact hknows

/-- `migrate` reports the truth whatever happens, exactly if the location it starts from is
    that of the directory in case it is at the destination. -/
theorem migrate_truthful_iff (call : MigrateCall) (stores : LocalityId → Store σ Input)
    (admitted : Bool) (hlocal : ∀ locality, (stores locality).localId = locality) :
    (∀ happenings report, call.Resolves stores admitted happenings report →
        call.Truthful stores admitted happenings report) ↔
      ((call.origin stores).place = call.destination →
        call.directory stores = some (call.origin stores)) := by
  by_cases hplace : (call.origin stores).place = call.destination
  · have hready : call.migrate stores admitted =
        some (.ready ⟨call.object, call.origin stores, call.origin stores, 0⟩) := if_pos hplace
    simp only [Resolves, Truthful, seen, hready, hplace, true_implies]
    constructor
    · intro hall
      have hsame := (hall [] _ ⟨rfl, rfl⟩).1
      exact (List.mem_singleton.mp hsame).symm
    · rintro hsame happenings report ⟨-, rfl⟩
      exact ⟨List.mem_singleton.mpr hsame.symm, hplace⟩
  · refine iff_of_true (fun happenings report hresolves => ?_) fun h => absurd h hplace
    cases hmigrate : call.migrate stores admitted with
    | none => simp only [Resolves, hmigrate] at hresolves
    | some migrated =>
      have hstarted : ∃ version schema,
          migrated = .started (call.start stores (call.origin stores) version schema) := by
        simp only [migrate, if_neg hplace] at hmigrate
        split at hmigrate
        · cases hmigrate
        · split at hmigrate
          · cases hmigrate
          · split at hmigrate
            · cases hmigrate
              exact ⟨_, _, rfl⟩
            · cases hmigrate
      obtain ⟨version, schema, rfl⟩ := hstarted
      simp only [Resolves, hmigrate] at hresolves
      obtain ⟨final, hrun, hdone⟩ := hresolves
      simp only [Truthful, seen, hmigrate, hrun, Option.map_some, Option.toList_some]
      exact call.started_truthful hlocal hrun hdone

end MigrateCall

/-! ### A handle that is out of date -/

/-- The object is sent from the source to the destination. -/
def sampleCall : MigrateCall where
  caller := sampleSource
  migration := samplePlan.migration
  object := sampleObject
  objectType := sampleType
  location := sampleLocation
  lease := sampleLocation
  destination := ⟨sampleDestination, ⟨0⟩⟩

/-- A client of a third locality wants it where it was created. -/
def sampleReturn : MigrateCall :=
  { sampleCall with
    caller := ⟨3⟩
    migration := ⟨⟨3⟩, 1, u64_one⟩
    destination := sampleLocation.place }

/-- All five steps are carried out and answered. -/
def sampleHappenings : List (Happening UInt8) :=
  [.deliver 0 false 0, .observe 0 true true, .deliver 1 false 0, .observe 1 true true,
    .deliver 2 false 0, .observe 2 true true, .deliver 3 false 0, .observe 3 true true,
    .deliver 4 false 0, .observe 4 true true]

/-- Where the object is then. -/
def sampleArrival : ObjectLocation := ⟨sampleDestination, ⟨0⟩, 1, 1, 2, by decide⟩

/-- The migration under way when all is done. -/
def sampleEnd : Underway UInt8 :=
  (exec Underway.step (sampleCall.start sampleWorld.stores sampleLocation 1 1)
    sampleHappenings).getD (sampleCall.start sampleWorld.stores sampleLocation 1 1)

theorem migrate_truthful_sample :
    sampleCall.Truthful sampleWorld.stores true sampleHappenings
      ⟨sampleObject, sampleLocation, sampleArrival, 1⟩ := by
  refine (MigrateCall.migrate_truthful_iff sampleCall sampleWorld.stores true
    sampleWorld_initial.localId).mpr (fun h => absurd h (by decide)) sampleHappenings _ ?_
  exact ⟨sampleEnd, rfl, rfl⟩

/-- The client finds the old location in its handle, and is told that the object is there. -/
theorem sampleReturn_untrue :
    ¬(∀ (stores : LocalityId → Store UInt8 Input) (call : MigrateCall) (admitted : Bool)
        (happenings : List (Happening UInt8)) (report : MigrationReport),
      (∀ locality, (stores locality).localId = locality) →
      call.Resolves stores admitted happenings report →
      call.Truthful stores admitted happenings report) ∧
    exec Underway.step (sampleCall.start sampleWorld.stores sampleLocation 1 1) sampleHappenings =
      some sampleEnd ∧
    sampleReturn.Resolves sampleEnd.stores true []
      ⟨sampleObject, sampleLocation, sampleLocation, 0⟩ ∧
    sampleReturn.directory sampleEnd.stores = some sampleArrival := by
  have hrun : exec Underway.step (sampleCall.start sampleWorld.stores sampleLocation 1 1)
      sampleHappenings = some sampleEnd := rfl
  have hresolves : sampleReturn.Resolves sampleEnd.stores true []
      ⟨sampleObject, sampleLocation, sampleLocation, 0⟩ := ⟨rfl, rfl⟩
  refine ⟨fun hall => ?_, hrun, hresolves, rfl⟩
  have hsound := exec_journal (fun (u : Underway UInt8) log => u.Sound sampleCall log)
    (fun _ _ _ _ hsound _ hstep => hsound.step hstep)
    (sampleCall.start_sound sampleWorld_initial.localId sampleLocation 1 1) (along_true _ _ _) hrun
  have hseen := (hall _ _ _ _ _ hsound.localId hresolves).1
  have hsame := List.mem_singleton.mp hseen
  cases hsame

end Hataori.Migration
