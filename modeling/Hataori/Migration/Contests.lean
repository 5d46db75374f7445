import Hataori.Lib.Counting
import Hataori.Migration.Reports
import Hataori.Object.Resolver
import Hataori.Object.Rests

/-!
# Migrations that compete

Any number of migrations of one object, each with its own `MigrationFuture`, from the creation of
the object on. A request that was sent is carried out at any later time, any number of times, or
never; the stores do everything else they can between any two steps. The directory, which is the
entry at the authority, still counts up by one: of the migrations that start from one location
one is committed at most.
-/

namespace Hataori.Migration

open Hataori.Runtime Hataori.Object Lib.Counting Lib.Machine

variable {σ : Type}

/-- A `MigrationFuture` among others: it waits for an answer to one of the requests sent. -/
structure Contender where
  maxRedirects : Nat
  coordinator : Coordinator
  waits : Nat
  deriving DecidableEq

/-- The migrations of one object: the futures, every request ever sent and the answers to it, by
    its number. No step reads the locations that were committed and those where the object was
    installed. -/
structure Contest (σ : Type) where
  object : ObjectId
  authority : LocalityId
  stores : LocalityId → Store σ Input
  contenders : List Contender
  sent : List Request
  answers : List (Nat × Reply)
  commits : List ObjectLocation
  installed : List ObjectLocation

/-- What happens next. A request is refused with any reply that carries no packet. -/
inductive Contest.Event (σ : Type) where
  | migrate (call : MigrateCall)
  | deliver (index : Nat) (contended : Bool) (now : Nat)
  | refuse (index : Nat) (reply : Reply)
  | observe (contender : Nat) (reply : Reply) (sent rollbackSent : Bool)
  | timeout (contender : Nat) (sent rollbackSent : Bool)
  | drop (contender : Nat)
  | others (locality : LocalityId) (beat : Beat σ Input)
  | cacheLocation (locality : LocalityId) (object : ObjectId) (location : ObjectLocation)
  | clearResolver (locality : LocalityId)

/-- The location that a step of the given kind has answered with. -/
def answered (kind step : Step) : Except ActionError MigrationPacket → List ObjectLocation
  | .ok packet => if step = kind then [packet.fromLocation] else []
  | .error _ => []

namespace Contest

/-- The object has just been made at its authority. -/
def start (object : ObjectId) (authority : LocalityId) (stores : LocalityId → Store σ Input)
    (first : ObjectLocation) : Contest σ :=
  ⟨object, authority, stores, [], [], [], [], [first]⟩

/-- Replaces the store of a locality. -/
def setStore (contest : Contest σ) (locality : LocalityId) (store : Store σ Input) : Contest σ :=
  { contest with stores := Function.update contest.stores locality store }

/-- A request is carried out and answered. -/
def carry (contest : Contest σ) (index : Nat) (request : Request) (contended : Bool) (now : Nat) :
    Contest σ :=
  let result := Underway.carryOut (contest.stores request.place.locality) request contended now
  { contest.setStore request.place.locality result.2 with
    answers := contest.answers ++ [(index, .ofResult result.1)]
    commits := contest.commits ++ answered .commit request.step result.1
    installed := contest.installed ++ answered .activate request.step result.1 }

/-- `RuntimeClient::migrate`, where it starts a migration. -/
def migrate (contest : Contest σ) (call : MigrateCall) : Contest σ :=
  match call.migrate contest.stores true with
  | some (.started underway) =>
    let coordinator := underway.coordinator
    { contest with
      contenders := contest.contenders ++ [⟨underway.maxRedirects, coordinator, contest.sent.length⟩]
      sent := contest.sent ++ [⟨.freeze, coordinator.original.place, coordinator.packet⟩] }
  | _ => contest

/-- A future goes on with a reply. -/
def proceed (contest : Contest σ) (number : Nat) (contender : Contender) (reply : Reply)
    (sent rollbackSent : Bool) : Contest σ :=
  let result := contender.coordinator.poll contender.maxRedirects reply sent rollbackSent
  match result.2 with
  | none =>
    { contest with
      contenders := contest.contenders.set number { contender with coordinator := result.1 } }
  | some request =>
    { contest with
      contenders := contest.contenders.set number
        ⟨contender.maxRedirects, result.1, contest.sent.length⟩
      sent := contest.sent ++ [request] }

/-- One step; `none` if it cannot happen. -/
def step (limits : LeaseLimits) (contest : Contest σ) : Event σ → Option (Contest σ)
  | .migrate call =>
    if call.object = contest.object ∧ call.lease.locality = contest.authority then
      some (contest.migrate call)
    else none
  | .deliver index contended now =>
    match contest.sent[index]? with
    | some request => some (contest.carry index request contended now)
    | none => none
  | .refuse index reply =>
    if index < contest.sent.length ∧ reply.isOk = false then
      some { contest with answers := contest.answers ++ [(index, reply)] }
    else none
  | .observe number reply sent rollbackSent =>
    match contest.contenders[number]? with
    | some contender =>
      if (contender.waits, reply) ∈ contest.answers then
        some (contest.proceed number contender reply sent rollbackSent)
      else none
    | none => none
  | .timeout number sent rollbackSent =>
    match contest.contenders[number]? with
    | some contender => some (contest.proceed number contender .failed sent rollbackSent)
    | none => none
  | .drop number =>
    match contest.contenders[number]? with
    | some contender =>
      let coordinator := { contender.coordinator with phase := .done .dropped }
      some { contest with
        contenders := contest.contenders.set number { contender with coordinator := coordinator } }
    | none => none
  | .others locality beat =>
    if beat.isForeign contest.object then
      ((contest.stores locality).beat limits beat).map (contest.setStore locality)
    else none
  | .cacheLocation locality object location =>
    some (contest.setStore locality ((contest.stores locality).cacheLocation object location))
  | .clearResolver locality =>
    some (contest.setStore locality (contest.stores locality).clearResolver)

/-- The authority has its entry of the object. -/
def Governed (contest : Contest σ) : Prop :=
  ((contest.stores contest.authority).entryAt contest.object).isSome = true

instance (contest : Contest σ) : Decidable contest.Governed :=
  inferInstanceAs (Decidable (_ = true))

/-! ## What the requests rely on -/

/-- The packet is of the object, and a request for the step with it relies on what is so: the
    object was installed where a prepared snapshot comes from, the location to be committed is one
    epoch on from such a place, and what is activated or retired was committed. -/
structure Warrants (contest : Contest σ) (packet : MigrationPacket) (step : Step) : Prop where
  object : packet.object = contest.object
  authority : packet.authority = contest.authority
  based : step = .prepare → packet.fromLocation ∈ contest.installed
  next : step = .commit → ∃ base ∈ contest.installed,
    packet.fromLocation.epoch = base.epoch + 1
  committed : step = .activate ∨ step = .retire → packet.fromLocation ∈ contest.commits

end Contest

/-- The step that follows when this one succeeds. -/
def Step.following : Step → Step
  | .freeze => .prepare
  | .prepare => .commit
  | .commit => .activate
  | .activate => .retire
  | _ => .rollback

namespace Contest

variable {limits : LeaseLimits} {contest next final : Contest σ} {first : ObjectLocation}

/-- The answer to a request warrants the request that follows. -/
def Warranted (contest : Contest σ) (answer : Nat × Reply) : Prop :=
  ∃ request, contest.sent[answer.1]? = some request ∧
    ∀ packet, answer.2 = .ok packet → contest.Warrants packet request.step.following

/-- The future is one of the object's, and waits for an answer to its last request. -/
structure Awaits (contest : Contest σ) (contender : Contender) : Prop where
  object : contender.coordinator.packet.object = contest.object
  authority : contender.coordinator.packet.authority = contest.authority
  request : ∀ step, contender.coordinator.phase.step = some step →
    ∃ request, contest.sent[contender.waits]? = some request ∧ request.step = step

/-- The directory counts up: each location that was committed is one epoch on from the one before
    it, the entry of the authority names the last, and the object has been installed at all of them
    but perhaps the last. It is open nowhere else. -/
structure Linear (first : ObjectLocation) (contest : Contest σ) : Prop where
  localId : ∀ locality, (contest.stores locality).localId = locality
  counts : CountsUp ObjectLocation.epoch first contest.commits
  directory : ∀ entry, (contest.stores contest.authority).entryAt contest.object = some entry →
    entry.location = contest.commits.getLastD first
  firm : ∀ location ∈ contest.installed, location ∈ first :: contest.commits
  settled : ∀ location ∈ first :: contest.commits,
    location ∈ contest.installed ∨ location = contest.commits.getLastD first
  opened : ∀ locality entry, (contest.stores locality).entryAt contest.object = some entry →
    entry.lifecycle.isOpen = true → entry.location ∈ contest.installed
  slots : ∀ locality entry slot, (contest.stores locality).entryAt contest.object = some entry →
    entry.prepared = some slot → slot.location.locality = locality ∧
      slot.location.slot < (contest.stores locality).nextSlot ∧
      slot.location ∉ contest.installed
  used : ∀ location ∈ contest.installed,
    location.slot < (contest.stores location.locality).nextSlot

/-- The directory counts up, and everything on its way relies on what is so. -/
structure Fair (first : ObjectLocation) (contest : Contest σ) : Prop where
  linear : contest.Linear first
  sent : ∀ request ∈ contest.sent, contest.Warrants request.packet request.step
  answers : ∀ answer ∈ contest.answers, contest.Warranted answer
  contenders : ∀ contender ∈ contest.contenders, contest.Awaits contender

/-- What was installed and committed stays so, and the requests keep their numbers. -/
structure Grows (contest next : Contest σ) : Prop where
  object : next.object = contest.object
  authority : next.authority = contest.authority
  installed : ∀ location ∈ contest.installed, location ∈ next.installed
  commits : ∀ location ∈ contest.commits, location ∈ next.commits
  sent : ∃ more, next.sent = contest.sent ++ more

theorem Warrants.mono {packet : MigrationPacket} {step : Step} (hgrows : contest.Grows next)
    (h : contest.Warrants packet step) : next.Warrants packet step where
  object := h.object.trans hgrows.object.symm
  authority := h.authority.trans hgrows.authority.symm
  based hstep := hgrows.installed _ (h.based hstep)
  next hstep := by
    obtain ⟨base, hbase, hepoch⟩ := h.next hstep
    exact ⟨base, hgrows.installed base hbase, hepoch⟩
  committed hstep := hgrows.commits _ (h.committed hstep)

theorem Grows.sent_at (hgrows : contest.Grows next) {index : Nat} {request : Request}
    (h : contest.sent[index]? = some request) : next.sent[index]? = some request := by
  obtain ⟨more, hmore⟩ := hgrows.sent
  rw [hmore, List.getElem?_append_left (List.getElem?_eq_some_iff.mp h).1, h]

theorem Warranted.mono {answer : Nat × Reply} (hgrows : contest.Grows next)
    (h : contest.Warranted answer) : next.Warranted answer := by
  obtain ⟨request, hrequest, hpacket⟩ := h
  exact ⟨request, hgrows.sent_at hrequest, fun packet hok => (hpacket packet hok).mono hgrows⟩

theorem Awaits.mono {contender : Contender} (hgrows : contest.Grows next)
    (h : contest.Awaits contender) : next.Awaits contender where
  object := h.object.trans hgrows.object.symm
  authority := h.authority.trans hgrows.authority.symm
  request step hstep := by
    obtain ⟨request, hrequest, hkind⟩ := h.request step hstep
    exact ⟨request, hgrows.sent_at hrequest, hkind⟩

/-- A rollback relies on nothing, and a freeze on nothing either. -/
theorem warrants_plain {packet : MigrationPacket} {step : Step}
    (hobject : packet.object = contest.object) (hauthority : packet.authority = contest.authority)
    (hstep : step = .freeze ∨ step = .rollback) : contest.Warrants packet step := by
  refine ⟨hobject, hauthority, ?_, ?_, ?_⟩
  all_goals
    rcases hstep with rfl | rfl
    all_goals simp

/-! ## The stores -/

theorem Linear.same (h : contest.Linear first) (hobject : next.object = contest.object)
    (hauthority : next.authority = contest.authority) (hstores : next.stores = contest.stores)
    (hcommits : next.commits = contest.commits) (hinstalled : next.installed = contest.installed) :
    next.Linear first := by
  obtain ⟨object, authority, stores, contenders, sent, answers, commits, installed⟩ := next
  cases hobject
  cases hauthority
  cases hstores
  cases hcommits
  cases hinstalled
  exact ⟨h.localId, h.counts, h.directory, h.firm, h.settled, h.opened, h.slots, h.used⟩

/-- What the entry of a locality has to do with what was committed and installed. -/
structure Placed (contest : Contest σ) (first : ObjectLocation) (locality : LocalityId)
    (commits installed : List ObjectLocation) (store : Store σ Input)
    (entry : ObjectEntry σ Input) : Prop where
  directory : locality = contest.authority → entry.location = commits.getLastD first
  opened : entry.lifecycle.isOpen = true → entry.location ∈ installed
  slots : ∀ slot, entry.prepared = some slot → slot.location.locality = locality ∧
    slot.location.slot < store.nextSlot ∧ slot.location ∉ installed

theorem Linear.placed (h : contest.Linear first) {locality : LocalityId}
    {entry : ObjectEntry σ Input}
    (hentry : (contest.stores locality).entryAt contest.object = some entry) :
    contest.Placed first locality contest.commits contest.installed (contest.stores locality)
      entry where
  directory heq := by
    subst heq
    exact h.directory entry hentry
  opened := h.opened locality entry hentry
  slots slot := h.slots locality entry slot hentry

/-- One store changes, and with it what is committed and installed. -/
theorem Linear.change (h : contest.Linear first) {locality : LocalityId} {store : Store σ Input}
    {commits installed : List ObjectLocation} (hlocal : store.localId = locality)
    (hslots : (contest.stores locality).nextSlot ≤ store.nextSlot)
    (hplaced : ∀ entry, store.entryAt contest.object = some entry →
      contest.Placed first locality commits installed store entry)
    (hcounts : CountsUp ObjectLocation.epoch first commits)
    (hdirectory : locality ≠ contest.authority → commits = contest.commits)
    (hfirm : ∀ location ∈ installed, location ∈ first :: commits)
    (hsettled : ∀ location ∈ first :: commits,
      location ∈ installed ∨ location = commits.getLastD first)
    (hkept : ∀ location ∈ contest.installed, location ∈ installed)
    (hnew : ∀ location ∈ installed, location ∈ contest.installed ∨
      location.locality = locality ∧ location.slot < store.nextSlot) :
    Linear first
      { contest.setStore locality store with commits := commits, installed := installed } := by
  have hself : Function.update contest.stores locality store locality = store :=
    Function.update_self ..
  have hrest : ∀ other, other ≠ locality →
      Function.update contest.stores locality store other = contest.stores other :=
    fun other hne => Function.update_of_ne hne ..
  refine ⟨fun other => ?_, hcounts, fun entry hentry => ?_, hfirm, hsettled,
    fun other entry hentry hopen => ?_, fun other entry slot hentry hslot => ?_,
    fun location hlocation => ?_⟩
  · change (Function.update contest.stores locality store other).localId = other
    by_cases heq : other = locality
    · rw [heq, hself, hlocal]
    · rw [hrest other heq]
      exact h.localId other
  · change (Function.update contest.stores locality store contest.authority).entryAt
      contest.object = some entry at hentry
    by_cases heq : contest.authority = locality
    · rw [heq, hself] at hentry
      exact (hplaced entry hentry).directory heq.symm
    · rw [hrest _ heq] at hentry
      have hsame := hdirectory (Ne.symm heq)
      subst hsame
      exact h.directory entry hentry
  · change (Function.update contest.stores locality store other).entryAt contest.object =
      some entry at hentry
    by_cases heq : other = locality
    · rw [heq, hself] at hentry
      exact (hplaced entry hentry).opened hopen
    · rw [hrest other heq] at hentry
      exact hkept _ (h.opened other entry hentry hopen)
  · change (Function.update contest.stores locality store other).entryAt contest.object =
      some entry at hentry
    change slot.location.locality = other ∧
      slot.location.slot < (Function.update contest.stores locality store other).nextSlot ∧ _
    by_cases heq : other = locality
    · rw [heq, hself] at hentry ⊢
      exact (hplaced entry hentry).slots slot hslot
    · rw [hrest other heq] at hentry ⊢
      obtain ⟨hplace, hused, hfresh⟩ := h.slots other entry slot hentry hslot
      refine ⟨hplace, hused, fun hin => ?_⟩
      rcases hnew _ hin with hold | ⟨hhere, -⟩
      · exact hfresh hold
      · exact heq (hplace.symm.trans hhere)
  · change location.slot <
      (Function.update contest.stores locality store location.locality).nextSlot
    rcases hnew location hlocation with hold | ⟨hhere, hused⟩
    · by_cases heq : location.locality = locality
      · rw [heq, hself]
        have hused := h.used location hold
        rw [heq] at hused
        exact hused.trans_le hslots
      · rw [hrest _ heq]
        exact h.used location hold
    · rw [hhere, hself]
      exact hused

/-- An operation that leaves the object where it is. -/
theorem Linear.rests (h : contest.Linear first) {locality : LocalityId} {store : Store σ Input}
    (hrests : Store.Rests contest.object (contest.stores locality) store) :
    (contest.setStore locality store).Linear first := by
  refine h.change (hrests.localId.trans (h.localId locality)) hrests.slots (fun after hafter => ?_)
    h.counts (fun _ => rfl) h.firm h.settled (fun _ hin => hin) fun _ hin => .inl hin
  obtain ⟨before, hbefore, hstood⟩ := hrests.entries after hafter
  have hplaced := h.placed hbefore
  refine ⟨fun heq => ?_, fun hopen => ?_, fun slot hslot => ?_⟩
  · rw [hstood.location]
    exact hplaced.directory heq
  · rw [hstood.location]
    exact hplaced.opened (hstood.opened hopen)
  · obtain ⟨hplace, hused, hfresh⟩ := hplaced.slots slot (hstood.prepared slot hslot)
    exact ⟨hplace, hused.trans_le hrests.slots, hfresh⟩

/-- The operation has left the object's entry alone. -/
theorem rests_of_same {store next : Store σ Input} {object : ObjectId}
    (htouch : Store.Touches object store next) (hslots : store.nextSlot ≤ next.nextSlot)
    (hsame : next.entryAt object = store.entryAt object) : Store.Rests object store next :=
  ⟨htouch.localId, hslots, fun after hafter => ⟨after, hsame ▸ hafter, .refl after⟩⟩

/-! ## The steps of a migration -/

variable {packet reply : MigrationPacket} {locality : LocalityId} {now : Nat} {contended : Bool}

/-- A freeze that succeeds found the object open, and so installed, where the packet says. -/
theorem Linear.frozen (h : contest.Linear first) (hobject : packet.object = contest.object)
    (hok : ((contest.stores locality).freezeMigration packet contended now).1 = .ok reply) :
    reply.object = packet.object ∧ reply.authority = packet.authority ∧
      reply.fromLocation ∈ contest.installed := by
  rcases (contest.stores locality).freezeMigration_cases packet contended now with ⟨_, hsame⟩ |
    ⟨entry, freezer, lifecycle, hentry, -, hfreezer, hlife, ⟨_, -, herror, -⟩ |
      ⟨_, _, _, -, herror, -⟩ | ⟨_, snapshot, _, -, -, hfrozen, -⟩⟩
  · rw [hsame] at hok
    cases hok
  · rw [herror] at hok
    cases hok
  · rw [herror] at hok
    cases hok
  · rw [hfrozen] at hok
    cases hok
    rw [hobject] at hentry
    refine ⟨rfl, rfl, ?_⟩
    rw [← (Store.freezerFor_ok hfreezer).1]
    exact h.opened locality entry hentry (Store.freezeLifecycle_opened hlife)

/-- A preparation takes a slot that nothing was installed in. -/
theorem Linear.prepare (h : contest.Linear first) (hobject : packet.object = contest.object)
    (hgoverned : contest.Governed) :
    (contest.setStore locality ((contest.stores locality).prepareMigration packet now).2).Linear
      first := by
  obtain ⟨htouch, hends⟩ := (contest.stores locality).prepareMigration_cases packet now
  have hgrows := (contest.stores locality).prepareMigration_slots packet now
  rw [hobject] at htouch hends
  rcases hends with ⟨_, -, hsame⟩ |
    ⟨location, _, _, _, _, hok, -, hplace, -, hslot, -, -, -, -, -, -, hstored⟩
  · exact h.rests (rests_of_same htouch hgrows hsame)
  rcases hstored with ⟨_, -, -, -, hsame⟩ | ⟨-, hset⟩
  · exact h.rests (rests_of_same htouch hgrows hsame)
  have hnext := Store.prepareMigration_nextSlot hok
  rw [h.localId locality] at hplace
  refine h.change (htouch.localId.trans (h.localId locality)) hgrows (fun after hafter => ?_)
    h.counts (fun _ => rfl) h.firm h.settled (fun _ hin => hin) fun _ hin => .inl hin
  rw [hset] at hafter
  cases hafter
  refine ⟨fun heq => ?_, fun hopen => ?_, fun slot hprepared => ?_⟩
  · -- The authority has its entry, so the slot was put into that.
    subst heq
    obtain ⟨entry, hentry⟩ := Option.isSome_iff_exists.mp hgoverned
    rw [Store.destinationEntry, hobject, hentry]
    exact h.directory entry hentry
  · rw [Store.destinationEntry, hobject] at hopen ⊢
    cases hentry : (contest.stores locality).entryAt contest.object with
    | none =>
      rw [hentry] at hopen
      cases hopen
    | some entry =>
      rw [hentry] at hopen
      exact h.opened locality entry hentry hopen
  · cases hprepared
    refine ⟨hplace, ?_, fun hin => ?_⟩
    · change location.slot < _
      rw [hslot, hnext]
      exact Nat.lt_succ_self _
    · have hused := h.used location hin
      rw [hplace, hslot] at hused
      exact lt_irrefl _ hused

/-- A preparation that succeeds answers with a location one epoch on. -/
theorem prepared_next (hbased : packet.fromLocation ∈ contest.installed)
    (hok : ((contest.stores locality).prepareMigration packet now).1 = .ok reply) :
    reply.object = packet.object ∧ reply.authority = packet.authority ∧
      ∃ base ∈ contest.installed, reply.fromLocation.epoch = base.epoch + 1 := by
  rcases ((contest.stores locality).prepareMigration_cases packet now).2 with ⟨_, herror, -⟩ |
    ⟨location, _, _, _, _, hprepared, -, -, -, -, hepoch, -⟩
  · rw [herror] at hok
    cases hok
  · rw [hprepared] at hok
    cases hok
    exact ⟨rfl, rfl, packet.fromLocation, hbased, hepoch⟩

/-- A commit is accepted at the authority alone, and moves the directory one epoch on from a place
    where the object was installed: that is the last that was committed. -/
theorem Linear.commit (h : contest.Linear first) (hobject : packet.object = contest.object)
    (hauthority : packet.authority = contest.authority)
    (hnext : ∃ base ∈ contest.installed, packet.fromLocation.epoch = base.epoch + 1) :
    Linear first
      { contest.setStore locality ((contest.stores locality).commitMigration packet now).2 with
        commits := contest.commits ++
          answered .commit .commit ((contest.stores locality).commitMigration packet now).1 } := by
  rcases (contest.stores locality).commitMigration_cases packet now with ⟨error, hsame⟩ |
    ⟨entry, hentry, -, hplace, hepoch, hok, htouch, hset⟩
  · rw [hsame]
    refine (h.rests (.refl contest.object (contest.stores locality))).same rfl rfl rfl ?_ rfl
    exact List.append_nil _
  rw [hobject] at hentry htouch hset
  have hhere : locality = contest.authority := by
    rw [← hauthority, hplace]
    exact (h.localId locality).symm
  have hlast : entry.location = contest.commits.getLastD first := by
    rw [hhere] at hentry
    exact h.directory entry hentry
  have hbase : contest.commits.getLastD first ∈ contest.installed := by
    obtain ⟨base, hbase, hstep⟩ := hnext
    have hsame : base = contest.commits.getLastD first :=
      h.counts.eq_last (h.firm base hbase) (by rw [← hlast]; omega)
    exact hsame ▸ hbase
  rw [hok]
  change Linear first { contest.setStore locality _ with
    commits := contest.commits ++ [packet.fromLocation] }
  refine h.change (htouch.localId.trans (h.localId locality))
    ((contest.stores locality).commitMigration_slots packet now).ge (fun after hafter => ?_)
    (h.counts.append (by rw [hepoch, hlast])) (fun hne => absurd hhere hne)
    (fun location hin => ?_) (fun location hin => ?_) (fun _ hin => hin) fun _ hin => .inl hin
  · rw [hset] at hafter
    cases hafter
    refine ⟨fun _ => ?_, fun hopen => (nomatch hopen), fun slot hslot => ?_⟩
    · exact (List.getLastD_concat ..).symm
    · rw [(contest.stores locality).commitMigration_slots packet now]
      exact (h.placed hentry).slots slot hslot
  · exact List.mem_append_left _ (h.firm location hin)
  · rw [List.getLastD_concat]
    rw [← List.cons_append] at hin
    rcases List.mem_append.mp hin with hold | hlate
    · rcases h.settled location hold with hinstalled | rfl
      · exact .inl hinstalled
      · exact .inl hbase
    · exact .inr (List.mem_singleton.mp hlate)

/-- An activation that succeeds installs the object where it was not before, so at the last
    location that was committed. -/
theorem Linear.activate (h : contest.Linear first) (hobject : packet.object = contest.object)
    (hcommitted : packet.fromLocation ∈ contest.commits) :
    Linear first
      { contest.setStore locality ((contest.stores locality).activateMigration packet).2 with
        installed := contest.installed ++
          answered .activate .activate ((contest.stores locality).activateMigration packet).1 } := by
  have hslots := (contest.stores locality).activateMigration_slots packet
  rcases (contest.stores locality).activateMigration_cases packet with ⟨error, hsame⟩ |
    ⟨entry, prepared, hentry, -, hprepared, htouch, ⟨error, -, herror, hset⟩ |
      ⟨-, hlocation, hok, hset⟩⟩
  · rw [hsame]
    refine (h.rests (.refl contest.object (contest.stores locality))).same rfl rfl rfl rfl ?_
    exact List.append_nil _
  · rw [herror]
    rw [hobject] at hentry htouch hset
    have hrests : Store.Rests contest.object (contest.stores locality)
        ((contest.stores locality).activateMigration packet).2 := by
      refine ⟨htouch.localId, hslots.ge, fun after hafter => ?_⟩
      rw [hset] at hafter
      cases hafter
      exact ⟨entry, hentry, rfl, id, fun _ hslot => nomatch hslot⟩
    exact (h.rests hrests).same rfl rfl rfl rfl (List.append_nil _)
  rw [hobject] at hentry htouch hset
  obtain ⟨hplace, hused, hfresh⟩ := (h.placed hentry).slots prepared hprepared
  have hmem : packet.fromLocation ∈ first :: contest.commits := List.mem_cons_of_mem _ hcommitted
  have hlast : packet.fromLocation = contest.commits.getLastD first :=
    (h.settled _ hmem).resolve_left (hlocation ▸ hfresh)
  rw [hok]
  change Linear first { contest.setStore locality _ with
    installed := contest.installed ++ [packet.fromLocation] }
  refine h.change (htouch.localId.trans (h.localId locality)) hslots.ge (fun after hafter => ?_)
    h.counts (fun _ => rfl) (fun location hin => ?_) (fun location hin => ?_)
    (fun location hin => List.mem_append_left _ hin) (fun location hin => ?_)
  · rw [hset] at hafter
    cases hafter
    refine ⟨fun _ => hlocation.trans hlast, fun _ => ?_, fun slot hslot => nomatch hslot⟩
    exact List.mem_append_right _ (List.mem_singleton.mpr hlocation)
  · rcases List.mem_append.mp hin with hold | hnew
    · exact h.firm location hold
    · rw [List.mem_singleton.mp hnew]
      exact hmem
  · exact (h.settled location hin).imp_left fun hold => List.mem_append_left _ hold
  · rcases List.mem_append.mp hin with hold | hnew
    · exact .inl hold
    · rw [List.mem_singleton.mp hnew, ← hlocation, hslots]
      exact .inr ⟨hplace, hused⟩

/-- A retirement names a location that was committed: at the authority it is the one the directory
    names, or an older one, which is ignored. -/
theorem Linear.retire (h : contest.Linear first) (hobject : packet.object = contest.object)
    (hcommitted : packet.fromLocation ∈ contest.commits) :
    (contest.setStore locality ((contest.stores locality).retireMigration packet now).2).Linear
      first := by
  have hgrows := (contest.stores locality).retireMigration_slots packet now
  rcases (contest.stores locality).retireMigration_cases packet now with ⟨_, hsame, -⟩ |
    ⟨entry, hentry, -, hepoch, htouch, hends⟩
  · rw [hsame]
    exact h.rests (.refl contest.object (contest.stores locality))
  rw [hobject] at hentry htouch hends
  have hdirectory : locality = contest.authority →
      packet.fromLocation = contest.commits.getLastD first := by
    intro hhere
    have hlast := (h.placed hentry).directory hhere
    exact h.counts.eq_last (List.mem_cons_of_mem _ hcommitted) (hlast ▸ hepoch)
  refine h.change (htouch.localId.trans (h.localId locality)) hgrows (fun after hafter => ?_)
    h.counts (fun _ => rfl) h.firm h.settled (fun _ hin => hin) fun _ hin => .inl hin
  have hslots : ∀ slot, entry.prepared = some slot → slot.location.locality = locality ∧
      slot.location.slot < ((contest.stores locality).retireMigration packet now).2.nextSlot ∧
      slot.location ∉ contest.installed := by
    intro slot hslot
    obtain ⟨hplace, hused, hfresh⟩ := (h.placed hentry).slots slot hslot
    exact ⟨hplace, hused.trans_le hgrows, hfresh⟩
  rcases hends with hset | ⟨-, -, hset⟩ | ⟨-, hgone⟩
  · rw [hset] at hafter
    cases hafter
    exact ⟨hdirectory, fun hopen => (nomatch hopen), hslots⟩
  · rw [hset] at hafter
    cases hafter
    exact ⟨hdirectory, fun hopen => (nomatch hopen), hslots⟩
  · rw [hgone] at hafter
    cases hafter

theorem carry_grows (index : Nat) (request : Request) :
    contest.Grows (contest.carry index request contended now) :=
  ⟨rfl, rfl, fun _ hin => List.mem_append_left _ hin, fun _ hin => List.mem_append_left _ hin, [],
    (List.append_nil _).symm⟩

/-- Only steps of its kind answer with a location that counts. -/
theorem append_answered {kind step : Step} (hne : step ≠ kind) (locations : List ObjectLocation)
    (result : Except ActionError MigrationPacket) :
    locations ++ answered kind step result = locations := by
  unfold answered
  split
  · rw [if_neg hne, List.append_nil]
  · exact List.append_nil _

/-- A request that is carried out leaves the directory counting. -/
theorem Linear.carry (h : contest.Linear first) (hgoverned : contest.Governed) {request : Request}
    (hwarrants : contest.Warrants request.packet request.step) (index : Nat) :
    (contest.carry index request contended now).Linear first := by
  obtain ⟨step, place, packet⟩ := request
  cases step with
  | freeze =>
    have hrests := Store.freezeMigration_rests contest.object (contest.stores place.locality) packet
      contended now
    exact (h.rests hrests).same rfl rfl rfl (append_answered (by simp) _ _)
      (append_answered (by simp) _ _)
  | prepare =>
    exact (h.prepare hwarrants.object hgoverned).same rfl rfl rfl (append_answered (by simp) _ _)
      (append_answered (by simp) _ _)
  | commit =>
    exact (h.commit hwarrants.object hwarrants.authority (hwarrants.next rfl)).same rfl rfl rfl rfl
      (append_answered (by simp) _ _)
  | activate =>
    exact (h.activate hwarrants.object (hwarrants.committed (.inl rfl))).same rfl rfl rfl
      (append_answered (by simp) _ _) rfl
  | rollback =>
    have hrests := Store.rollbackMigration_rests contest.object (contest.stores place.locality) packet
    exact (h.rests hrests).same rfl rfl rfl (append_answered (by simp) _ _)
      (append_answered (by simp) _ _)
  | retire =>
    exact (h.retire hwarrants.object (hwarrants.committed (.inr rfl))).same rfl rfl rfl
      (append_answered (by simp) _ _) (append_answered (by simp) _ _)

/-- A commit, an activation and a retirement answer with the packet they were sent. -/
theorem execute_ok {store : Store σ Input} {step : Step} (now : Nat)
    (hstep : step = .commit ∨ step = .activate ∨ step = .retire ∨ step = .rollback)
    (hok : (World.execute store step packet now).1 = .ok reply) : reply = packet := by
  rcases hstep with rfl | rfl | rfl | rfl
  · rcases store.commitMigration_cases packet now with ⟨error, hsame⟩ | ⟨_, -, -, -, -, hsame, -⟩
    · rw [World.execute, hsame] at hok
      cases hok
    · rw [World.execute, hsame] at hok
      exact (Except.ok.inj hok).symm
  · rcases store.activateMigration_cases packet with ⟨error, hsame⟩ |
      ⟨_, _, -, -, -, -, ⟨error, -, hsame, -⟩ | ⟨-, -, hsame, -⟩⟩
    · rw [World.execute, hsame] at hok
      cases hok
    · rw [World.execute, hsame] at hok
      cases hok
    · rw [World.execute, hsame] at hok
      exact (Except.ok.inj hok).symm
  · rcases store.retireMigration_cases packet now with ⟨answer, hsame, hpacket⟩ | ⟨_, -, hsame, -⟩
    · rw [World.execute, hsame] at hok
      exact hpacket reply hok
    · rw [World.execute, hsame] at hok
      exact (Except.ok.inj hok).symm
  · exact (Except.ok.inj hok).symm

/-- The answer warrants what the future sends next. -/
theorem Linear.carry_warrants (h : contest.Linear first) {request : Request}
    (hwarrants : contest.Warrants request.packet request.step) (index : Nat)
    (hok : (Underway.carryOut (contest.stores request.place.locality) request contended now).1 =
      .ok reply) :
    (contest.carry index request contended now).Warrants reply request.step.following := by
  have hgrows : contest.Grows (contest.carry index request contended now) :=
    carry_grows index request
  obtain ⟨step, place, packet⟩ := request
  cases step with
  | freeze =>
    obtain ⟨hobject, hauthority, hbased⟩ := h.frozen hwarrants.object hok
    exact Warrants.mono hgrows ⟨hobject.trans hwarrants.object,
      hauthority.trans hwarrants.authority, fun _ => hbased, nofun, by simp [Step.following]⟩
  | prepare =>
    obtain ⟨hobject, hauthority, hnext⟩ := prepared_next (hwarrants.based rfl) hok
    exact Warrants.mono hgrows ⟨hobject.trans hwarrants.object,
      hauthority.trans hwarrants.authority, nofun, fun _ => hnext, by simp [Step.following]⟩
  | commit =>
    obtain rfl : reply = packet := execute_ok now (.inl rfl) hok
    refine ⟨hwarrants.object, hwarrants.authority, nofun, nofun, fun _ => ?_⟩
    refine List.mem_append_right _ ?_
    change _ ∈ answered .commit .commit _
    rw [hok]
    exact List.mem_singleton_self _
  | activate =>
    obtain rfl : reply = packet := execute_ok now (.inr (.inl rfl)) hok
    exact Warrants.mono hgrows ⟨hwarrants.object, hwarrants.authority, nofun, nofun,
      fun _ => hwarrants.committed (.inl rfl)⟩
  | retire =>
    obtain rfl : reply = packet := execute_ok now (.inr (.inr (.inl rfl))) hok
    exact Warrants.mono hgrows (warrants_plain hwarrants.object hwarrants.authority (.inr rfl))
  | rollback =>
    obtain rfl : reply = packet := execute_ok now (.inr (.inr (.inr rfl))) hok
    exact Warrants.mono hgrows (warrants_plain hwarrants.object hwarrants.authority (.inr rfl))

/-! ## The run -/

/-- The future has gone on, and has sent at most one request that is warranted. -/
theorem Fair.grow (h : contest.Fair first) (hlinear : next.Linear first)
    (hgrows : contest.Grows next)
    (hsent : ∀ request ∈ next.sent, request ∈ contest.sent ∨
      next.Warrants request.packet request.step)
    (hanswers : ∀ answer ∈ next.answers, answer ∈ contest.answers ∨ next.Warranted answer)
    (hcontenders : ∀ contender ∈ next.contenders, contender ∈ contest.contenders ∨
      next.Awaits contender) : next.Fair first where
  linear := hlinear
  sent request hin := (hsent request hin).elim (fun hold => (h.sent request hold).mono hgrows) id
  answers answer hin :=
    (hanswers answer hin).elim (fun hold => (h.answers answer hold).mono hgrows) id
  contenders contender hin :=
    (hcontenders contender hin).elim (fun hold => (h.contenders contender hold).mono hgrows) id

theorem Fair.carry (h : contest.Fair first) (hgoverned : contest.Governed) {index : Nat}
    {request : Request} (hrequest : contest.sent[index]? = some request) :
    (contest.carry index request contended now).Fair first := by
  have hwarrants := h.sent request (List.mem_of_getElem? hrequest)
  refine h.grow (h.linear.carry hgoverned hwarrants index) (carry_grows index request)
    (fun _ hin => .inl hin) (fun answer hin => ?_) fun _ hin => .inl hin
  rcases List.mem_append.mp hin with hold | hnew
  · exact .inl hold
  · rw [List.mem_singleton.mp hnew]
    refine .inr ⟨request, hrequest, fun packet hok => ?_⟩
    refine h.linear.carry_warrants hwarrants index ?_
    unfold Reply.ofResult at hok
    split at hok
    · next hresult =>
      cases hok
      exact hresult
    · cases hok

/-- A future of the object that waits for nothing. -/
theorem Fair.stop (h : contest.Fair first) (number : Nat) {contender : Contender}
    (hobject : contender.coordinator.packet.object = contest.object)
    (hauthority : contender.coordinator.packet.authority = contest.authority)
    (hphase : contender.coordinator.phase.step = none) :
    Fair first { contest with contenders := contest.contenders.set number contender } := by
  refine h.grow (h.linear.same rfl rfl rfl rfl rfl)
    ⟨rfl, rfl, fun _ hin => hin, fun _ hin => hin, [], (List.append_nil _).symm⟩
    (fun _ hin => .inl hin) (fun _ hin => .inl hin) fun found hin => ?_
  rcases List.mem_or_eq_of_mem_set hin with hold | rfl
  · exact .inl hold
  · refine .inr ⟨hobject, hauthority, fun step hstep => ?_⟩
    rw [hphase] at hstep
    cases hstep

/-- A future of the object sends a request that is warranted, and waits for its answer. -/
theorem Fair.send (h : contest.Fair first) {contenders : List Contender} {contender : Contender}
    {request : Request} (hwaits : contender.waits = contest.sent.length)
    (hphase : contender.coordinator.phase.step = some request.step)
    (hpacket : request.packet = contender.coordinator.packet)
    (hwarrants : contest.Warrants request.packet request.step)
    (hcontenders : ∀ found ∈ contenders, found ∈ contest.contenders ∨ found = contender) :
    Fair first
      { contest with contenders := contenders, sent := contest.sent ++ [request] } := by
  have hgrows : contest.Grows
      { contest with contenders := contenders, sent := contest.sent ++ [request] } :=
    ⟨rfl, rfl, fun _ hin => hin, fun _ hin => hin, [request], rfl⟩
  refine h.grow (h.linear.same rfl rfl rfl rfl rfl) hgrows (fun found hin => ?_)
    (fun _ hin => .inl hin) fun found hin => ?_
  · rcases List.mem_append.mp hin with hold | hnew
    · exact .inl hold
    · rw [List.mem_singleton.mp hnew]
      exact .inr (hwarrants.mono hgrows)
  · rcases hcontenders found hin with hold | rfl
    · exact .inl hold
    · refine .inr ⟨hpacket ▸ hwarrants.object, hpacket ▸ hwarrants.authority, fun step hstep => ?_⟩
      rw [hphase] at hstep
      cases hstep
      refine ⟨request, ?_, rfl⟩
      change (contest.sent ++ [request])[found.waits]? = some request
      rw [hwaits, List.getElem?_concat_length]

theorem Fair.proceed (h : contest.Fair first) {number : Nat} {contender : Contender}
    {reply : Reply} (hcontender : contest.contenders[number]? = some contender)
    (hreply : ∀ packet, reply = .ok packet → contest.Warranted (contender.waits, reply))
    (sent rollbackSent : Bool) :
    (contest.proceed number contender reply sent rollbackSent).Fair first := by
  have hawaits := h.contenders contender (List.mem_of_getElem? hcontender)
  have hpolled := contender.coordinator.poll_polled contender.maxRedirects reply sent rollbackSent
  unfold Contest.proceed
  generalize contender.coordinator.poll contender.maxRedirects reply sent rollbackSent = result
    at hpolled
  obtain ⟨c, request⟩ := result
  change Polled contender.coordinator reply c request at hpolled
  have hset : ∀ found ∈ contest.contenders.set number
      ⟨contender.maxRedirects, c, contest.sent.length⟩, found ∈ contest.contenders ∨
        found = ⟨contender.maxRedirects, c, contest.sent.length⟩ :=
    fun found hin => List.mem_or_eq_of_mem_set hin
  -- A packet of the future is its own or one of an answer to it.
  have hours : c.packet = contender.coordinator.packet ∨ reply = .ok c.packet →
      c.packet.object = contest.object ∧ c.packet.authority = contest.authority := by
    rintro (hsame | hok)
    · rw [hsame]
      exact ⟨hawaits.object, hawaits.authority⟩
    · obtain ⟨_, -, hwarrants⟩ := hreply _ hok
      exact ⟨(hwarrants _ hok).object, (hwarrants _ hok).authority⟩
  have hfollows : ∀ step, contender.coordinator.phase.step = some step →
      reply = .ok c.packet → contest.Warrants c.packet step.following := by
    intro step hstep hok
    obtain ⟨request, hrequest, rfl⟩ := hawaits.request step hstep
    obtain ⟨found, hfound, hwarrants⟩ := hreply _ hok
    rw [hrequest] at hfound
    cases hfound
    exact hwarrants _ hok
  have hrollback : c.packet.object = contest.object ∧ c.packet.authority = contest.authority →
      contest.Warrants c.packet .rollback := fun hpacket => warrants_plain hpacket.1 hpacket.2 (.inr rfl)
  cases hpolled with
  | rest result hphase =>
    exact h.stop number hawaits.object hawaits.authority (by rw [hphase]; rfl)
  | done _ result hphase _ _ hpacket =>
    obtain ⟨hobject, hauthority⟩ := hours hpacket
    exact h.stop number hobject hauthority (by rw [hphase]; rfl)
  | stranded _ location result _ _ hphase _ hpacket =>
    refine h.stop number ?_ ?_ (by rw [hphase]; rfl)
    · rw [hpacket]
      exact hawaits.object
    · rw [hpacket]
      exact hawaits.authority
  | rollbackSource _ destination hphase _ hpacket _ _ =>
    exact h.send rfl (by rw [hphase]; rfl) rfl (hrollback (hours hpacket)) hset
  | rollbackDestination _ _ hphase _ hpacket =>
    exact h.send rfl (by rw [hphase]; rfl) rfl (hrollback (hours (.inl hpacket))) hset
  | redirect _ location _ _ hphase _ hpacket =>
    refine h.send rfl (by rw [hphase]; rfl) rfl (warrants_plain ?_ ?_ (.inl rfl)) hset
    · rw [hpacket]
      exact hawaits.object
    · rw [hpacket]
      exact hawaits.authority
  | prepare _ hbefore hok hphase _ _ =>
    exact h.send rfl (by rw [hphase]; rfl) rfl (hfollows .freeze (by rw [hbefore]; rfl) hok) hset
  | commit _ hbefore hok hphase _ _ =>
    exact h.send rfl (by rw [hphase]; rfl) rfl (hfollows .prepare (by rw [hbefore]; rfl) hok) hset
  | activate _ hbefore hok hphase _ _ =>
    exact h.send rfl (by rw [hphase]; rfl) rfl (hfollows .commit (by rw [hbefore]; rfl) hok) hset
  | retire _ hbefore hok hphase _ _ _ =>
    exact h.send rfl (by rw [hphase]; rfl) rfl (hfollows .activate (by rw [hbefore]; rfl) hok) hset

/-- A migration starts with the packet of its call, and waits for the freeze. -/
theorem migrate_started {call : MigrateCall} {stores : LocalityId → Store σ Input}
    {underway : Underway σ} (h : call.migrate stores true = some (.started underway)) :
    underway.coordinator.phase = .freeze ∧ underway.coordinator.packet.object = call.object ∧
      underway.coordinator.packet.authority = call.lease.locality := by
  unfold MigrateCall.migrate at h
  dsimp only at h
  split at h
  · cases h
  split at h
  · cases h
  split at h
  · cases h
  cases h
  exact ⟨rfl, rfl, rfl⟩

/-- A store does something in which the object stays where it is. -/
theorem Fair.rests (h : contest.Fair first) {locality : LocalityId} {store : Store σ Input}
    (hrests : Store.Rests contest.object (contest.stores locality) store) :
    (contest.setStore locality store).Fair first :=
  h.grow (h.linear.rests hrests)
    ⟨rfl, rfl, fun _ hin => hin, fun _ hin => hin, [], (List.append_nil _).symm⟩
    (fun _ hin => .inl hin) (fun _ hin => .inl hin) fun _ hin => .inl hin

theorem Fair.migrate (h : contest.Fair first) {call : MigrateCall}
    (hobject : call.object = contest.object) (hlease : call.lease.locality = contest.authority) :
    (contest.migrate call).Fair first := by
  unfold Contest.migrate
  split
  · next underway hstarted =>
    obtain ⟨hphase, hpacket, hplace⟩ := migrate_started hstarted
    have hcontenders : ∀ found ∈ contest.contenders ++
        [⟨underway.maxRedirects, underway.coordinator, contest.sent.length⟩],
        found ∈ contest.contenders ∨
          found = ⟨underway.maxRedirects, underway.coordinator, contest.sent.length⟩ :=
      fun found hin => (List.mem_append.mp hin).imp_right List.mem_singleton.mp
    exact h.send rfl (by rw [hphase]; rfl) rfl
      (warrants_plain (hpacket.trans hobject) (hplace.trans hlease) (.inl rfl)) hcontenders
  · exact h

/-- The contest is about one object. -/
theorem step_same {event : Event σ} (hstep : contest.step limits event = some next) :
    next.object = contest.object ∧ next.authority = contest.authority := by
  have hproceed : ∀ number contender reply sent rollbackSent,
      (contest.proceed number contender reply sent rollbackSent).object = contest.object ∧
        (contest.proceed number contender reply sent rollbackSent).authority =
          contest.authority := by
    intro number contender reply sent rollbackSent
    unfold Contest.proceed
    dsimp only
    split <;> exact ⟨rfl, rfl⟩
  cases event with
  | migrate call =>
    simp only [Contest.step] at hstep
    split at hstep
    · cases hstep
      unfold Contest.migrate
      split <;> exact ⟨rfl, rfl⟩
    · cases hstep
  | others locality beat =>
    simp only [Contest.step] at hstep
    split at hstep
    · obtain ⟨store, -, rfl⟩ := Option.map_eq_some_iff.mp hstep
      exact ⟨rfl, rfl⟩
    · cases hstep
  | cacheLocation | clearResolver =>
    cases hstep
    exact ⟨rfl, rfl⟩
  | observe number reply sent rollbackSent =>
    simp only [Contest.step] at hstep
    split at hstep
    · split at hstep
      · cases hstep
        exact hproceed _ _ _ _ _
      · cases hstep
    · cases hstep
  | timeout number sent rollbackSent =>
    simp only [Contest.step] at hstep
    split at hstep
    · cases hstep
      exact hproceed _ _ _ _ _
    · cases hstep
  | deliver | refuse | drop =>
    simp only [Contest.step] at hstep
    split at hstep
    · cases hstep
      exact ⟨rfl, rfl⟩
    · cases hstep

theorem Fair.step (h : contest.Fair first) (hgoverned : contest.Governed) {event : Event σ}
    (hstep : contest.step limits event = some next) : next.Fair first := by
  cases event with
  | migrate call =>
    simp only [Contest.step] at hstep
    split at hstep
    · next hours =>
      cases hstep
      exact h.migrate hours.1 hours.2
    · cases hstep
  | deliver index contended now =>
    simp only [Contest.step] at hstep
    split at hstep
    · next request hrequest =>
      cases hstep
      exact h.carry hgoverned hrequest
    · cases hstep
  | refuse index reply =>
    simp only [Contest.step] at hstep
    split at hstep
    · next hrefused =>
      cases hstep
      refine h.grow (h.linear.same rfl rfl rfl rfl rfl)
        ⟨rfl, rfl, fun _ hin => hin, fun _ hin => hin, [], (List.append_nil _).symm⟩
        (fun _ hin => .inl hin) (fun answer hin => ?_) fun _ hin => .inl hin
      rcases List.mem_append.mp hin with hold | hnew
      · exact .inl hold
      · rw [List.mem_singleton.mp hnew]
        refine .inr ⟨_, List.getElem?_eq_getElem hrefused.1, fun packet hok => ?_⟩
        have hno := hrefused.2
        rw [show reply = .ok packet from hok] at hno
        cases hno
    · cases hstep
  | observe number reply sent rollbackSent =>
    simp only [Contest.step] at hstep
    split at hstep
    · next contender hcontender =>
      split at hstep
      · next hanswer =>
        cases hstep
        exact h.proceed hcontender (fun _ _ => h.answers _ hanswer) sent rollbackSent
      · cases hstep
    · cases hstep
  | timeout number sent rollbackSent =>
    simp only [Contest.step] at hstep
    split at hstep
    · next contender hcontender =>
      cases hstep
      exact h.proceed hcontender (by simp) sent rollbackSent
    · cases hstep
  | drop number =>
    simp only [Contest.step] at hstep
    split at hstep
    · next contender hcontender =>
      cases hstep
      have hawaits := h.contenders contender (List.mem_of_getElem? hcontender)
      exact h.stop number hawaits.object hawaits.authority rfl
    · cases hstep
  | others locality beat =>
    simp only [Contest.step] at hstep
    split at hstep
    · next hforeign =>
      obtain ⟨store, hstore, rfl⟩ := Option.map_eq_some_iff.mp hstep
      exact h.rests (Store.beat_rests hforeign hstore)
    · cases hstep
  | cacheLocation locality object location =>
    cases hstep
    exact h.rests (Store.cacheLocation_rests _ _ object location)
  | clearResolver locality =>
    cases hstep
    exact h.rests (.of_fields rfl (le_refl _) rfl)

end Contest

/-! ## From the creation on -/

/-- The entry of a new object names the location that `insert` answers with. -/
theorem insert_first {store home : Store σ Input} {object : ObjectId} {objectType : ObjectTypeId}
    {domain : DomainId} {leaseLocality : LocalityId} {rooted : Bool} {state : σ} {now : Nat}
    {first : ObjectLocation}
    (h : store.insert object objectType domain leaseLocality rooted state now = (.ok first, home)) :
    home.localId = store.localId ∧ first.locality = store.localId ∧ first.epoch = 1 ∧
      first.slot < home.nextSlot ∧ ∃ entry, home.entryAt object = some entry ∧
        entry.location = first ∧ entry.prepared = none := by
  unfold Store.insert at h
  split at h
  · cases h
  split at h
  · cases h
  split at h
  · cases h
  next slot hslot =>
  dsimp only at h
  split at h
  · cases h
  next location hlocation =>
  split at h
  · cases h
  obtain ⟨hlocality, -, hnumber, -, hepoch⟩ := ObjectLocation.new_eq_some hlocation
  have hgrows := (checkedSucc_eq_some.mp hslot).1
  generalize hset : Store.setEntry _ object _ = set at h
  obtain ⟨resolver, queue, hcache⟩ := set.cacheLocation_eq object location
  rw [hcache] at h
  cases h
  subst hset
  refine ⟨rfl, hlocality, hepoch, ?_, _, Store.entryAt_setEntry_self _ _ _, rfl, rfl⟩
  change first.slot < slot
  omega

namespace Contest

variable {limits : LeaseLimits} {contest next final : Contest σ} {first : ObjectLocation}

/-- A new object that no other locality knows. -/
theorem fair_start {stores : LocalityId → Store σ Input} {home : Store σ Input}
    {object : ObjectId} {authority : LocalityId} {objectType : ObjectTypeId} {domain : DomainId}
    {leaseLocality : LocalityId} {rooted : Bool} {state : σ} {now : Nat}
    (hlocal : ∀ locality, (stores locality).localId = locality)
    (hnew : ∀ locality, (stores locality).entryAt object = none)
    (hcreated : (stores authority).insert object objectType domain leaseLocality rooted state now =
      (.ok first, home)) :
    (start object authority (Function.update stores authority home) first).Fair first := by
  obtain ⟨hhome, hhere, -, hslot, entry, hentry, hplace, hunprepared⟩ := insert_first hcreated
  rw [hlocal] at hhome hhere
  have honly : ∀ locality found,
      (Function.update stores authority home locality).entryAt object = some found →
      locality = authority ∧ found = entry := by
    intro locality found hfound
    by_cases heq : locality = authority
    · subst heq
      rw [Function.update_self, hentry] at hfound
      exact ⟨rfl, (Option.some.inj hfound).symm⟩
    · rw [Function.update_of_ne heq, hnew] at hfound
      cases hfound
  refine ⟨⟨fun locality => ?_, countsUp_nil _ _, fun found hfound => ?_, fun location hin => hin,
    fun location hin => .inl hin, fun locality found hfound _ => ?_,
    fun locality found slot hfound hprepared => ?_, fun location hin => ?_⟩,
    nofun, nofun, nofun⟩
  · change (Function.update stores authority home locality).localId = locality
    by_cases heq : locality = authority
    · rw [heq, Function.update_self, hhome]
    · rw [Function.update_of_ne heq, hlocal]
  · rw [(honly authority found hfound).2, hplace]
    rfl
  · rw [(honly locality found hfound).2, hplace]
    exact List.mem_singleton_self first
  · rw [(honly locality found hfound).2, hunprepared] at hprepared
    cases hprepared
  · rw [List.mem_singleton.mp hin, hhere]
    change first.slot < (Function.update stores authority home authority).nextSlot
    rw [Function.update_self]
    exact hslot

/-- In every run of any number of migrations of one object, from its creation on and as long as the
    authority has its entry: the locations that were committed count up by one from epoch two on,
    so that of all migrations from one location one is committed; the directory names the last of
    them; and wherever the object is open, it is at one of them. -/
theorem directory_linear {stores : LocalityId → Store σ Input} {home : Store σ Input}
    {object : ObjectId} {authority : LocalityId} {objectType : ObjectTypeId} {domain : DomainId}
    {leaseLocality : LocalityId} {rooted : Bool} {state : σ} {now : Nat} {events : List (Event σ)}
    (hlocal : ∀ locality, (stores locality).localId = locality)
    (hnew : ∀ locality, (stores locality).entryAt object = none)
    (hcreated : (stores authority).insert object objectType domain leaseLocality rooted state now =
      (.ok first, home))
    (hgoverned : Along (step limits) (fun contest _ => contest.Governed)
      (start object authority (Function.update stores authority home) first) events)
    (hrun : exec (step limits)
      (start object authority (Function.update stores authority home) first) events = some final) :
    final.commits.map ObjectLocation.epoch = List.range' 2 final.commits.length ∧
      (∀ entry, (final.stores authority).entryAt object = some entry →
        entry.location = final.commits.getLastD first) ∧
      ∀ locality entry, (final.stores locality).entryAt object = some entry →
        entry.lifecycle.isOpen = true → entry.location ∈ first :: final.commits := by
  have hfair : final.Fair first := exec_invariant (fun contest => contest.Fair first)
    (fun _ _ _ h hcond hstep => h.step hcond hstep) (fair_start hlocal hnew hcreated) hgoverned hrun
  have hsame : final.object = object ∧ final.authority = authority := exec_invariant_all
    (fun contest => contest.object = object ∧ contest.authority = authority)
    (fun _ _ _ h hstep => ⟨(step_same hstep).1.trans h.1, (step_same hstep).2.trans h.2⟩)
    ⟨rfl, rfl⟩ hrun
  obtain ⟨hobject, hauthority⟩ := hsame
  have hlinear := hfair.linear
  have hcounts := hlinear.counts
  refine ⟨?_, ?_, ?_⟩
  · unfold CountsUp at hcounts
    rw [(insert_first hcreated).2.2.1, List.map_cons, List.range'_succ] at hcounts
    exact (List.cons.inj hcounts).2
  · intro entry hentry
    subst hobject
    subst hauthority
    exact hlinear.directory entry hentry
  · intro locality entry hentry hopen
    subst hobject
    exact hlinear.firm _ (hlinear.opened locality entry hentry hopen)

end Contest

/-! ### Two migrations from one place -/

/-- The store of the authority once the object has been made. -/
def sampleHome : Store UInt8 Input :=
  ((sampleStore sampleSource).insert sampleObject sampleType ⟨0⟩ sampleSource true 7 0).2

/-- A client of a third locality wants the object there. -/
def sampleRival : MigrateCall :=
  { sampleCall with
    caller := ⟨3⟩
    migration := ⟨⟨3⟩, 1, u64_one⟩
    destination := ⟨⟨3⟩, ⟨0⟩⟩ }

/-- The packet of a call when the object is frozen. -/
def sampleFrozen (call : MigrateCall) : MigrationPacket :=
  { call.packet sampleLocation 1 1 with snapshot := [[7]] }

/-- Where the rival's slot is. -/
def sampleElsewhere : ObjectLocation := ⟨⟨3⟩, ⟨0⟩, 1, 1, 2, ObjectLocation.valid_secondEpoch⟩

/-- Both freeze the object, since the first freeze runs out of time, and both prepare it. The
    rival is the first to commit. -/
def sampleRivalry : List (Contest.Event UInt8) :=
  [.migrate sampleCall, .migrate sampleRival, .deliver 0 false 0,
    .observe 0 (.ok (sampleFrozen sampleCall)) true true,
    .others sampleSource (.deed (.act (.turn (.expire [sampleObject] 10)))), .deliver 1 false 10,
    .observe 1 (.ok (sampleFrozen sampleRival)) true true, .deliver 2 false 10,
    .deliver 3 false 10, .observe 0 (.ok (sampleCall.packet sampleArrival 1 1)) true true,
    .observe 1 (.ok (sampleRival.packet sampleElsewhere 1 1)) true true, .deliver 5 false 10,
    .deliver 4 false 10]

/-- The contest before both are called. -/
def sampleContest : Contest UInt8 :=
  .start sampleObject sampleSource (Function.update sampleStore sampleSource sampleHome)
    sampleLocation

theorem rivals_linear :
    ∃ final, exec (Contest.step ⟨4, 4⟩) sampleContest sampleRivalry = some final ∧
      final.sent.length = 6 ∧ final.commits = [sampleElsewhere] ∧
      final.commits.map ObjectLocation.epoch = List.range' 2 final.commits.length := by
  have hgoverned : Along (Contest.step ⟨4, 4⟩) (fun contest _ => contest.Governed) sampleContest
      sampleRivalry := by
    decide +kernel
  have hcreated : (sampleStore sampleSource).insert sampleObject sampleType ⟨0⟩ sampleSource true 7 0 =
      (.ok sampleLocation, sampleHome) := rfl
  have hrun : exec (Contest.step ⟨4, 4⟩) sampleContest sampleRivalry = some _ := rfl
  obtain ⟨hcounts, -⟩ := Contest.directory_linear (fun _ => rfl) (fun _ => rfl) hcreated hgoverned hrun
  exact ⟨_, hrun, rfl, rfl, hcounts⟩

end Hataori.Migration
