import Hataori.Migration.Snapshot
import Hataori.Migration.Writers
import Hataori.Object.Shut

/-!
# No write after the snapshot

From the admission of the freeze on the source lets no call in, the freeze is the
last job of its mailbox and runs alone, and after the snapshot the source stays
shut: no write runs there, unless the freeze runs out of time or the coordinator
rolls back.
-/

namespace Hataori.Migration

open Hataori.Runtime Hataori.Object Hataori.Object.Store Lib.Machine

variable {σ : Type} {w next : World σ}

/-- The destination was activated at the source's own locality. -/
def reopened (w : World σ) (source : LocalityId) : Prop :=
  w.history.installed.isSome = true ∧ w.plan.destination.locality = source

/-- The source is frozen from the admission of the freeze on and shut after the
    snapshot. -/
structure Still (w : World σ) : Prop where
  queued : ∀ locality entry, (w.stores locality).entryAt w.plan.object = some entry →
    attemptsOf entry.admission.queue ≠ [] →
    frozenBy entry w.plan.migration = true ∧ attemptsOf entry.admission.queue.dropLast = []
  started : ∀ running ∈ w.running, ∀ attempt packet, running.work = .freeze attempt packet →
    running.ran = false → ∃ entry, (w.stores running.locality).entryAt w.plan.object = some entry ∧
      frozenBy entry w.plan.migration = true ∧ entry.admission.queue = []
  shut : ∀ source state, w.history.snapshot = some (source, state) → ¬ reopened w source →
    Shut w.plan.migration w.plan.object (w.stores source) ∧
    ∀ running ∈ w.running, running.writes source w.plan.object = true → running.ran = true
  late : w.history.late = false

theorem Initial.still (h : Initial w) : Still w where
  queued := fun locality entry hentry hne => absurd (h.calls locality _ entry hentry) hne
  started := by
    rw [h.running]
    simp
  shut := by
    rw [h.history]
    simp [History.start]
  late := by
    rw [h.history]
    rfl

theorem sublist_dropLast {α : Type} {first second : List α} (h : first.Sublist second) :
    first.dropLast.Sublist second.dropLast := by
  have htail := h.reverse.tail
  rw [List.tail_reverse, List.tail_reverse] at htail
  exact List.reverse_sublist.mp htail

theorem attemptsOf_sublist {first second : List (ActionJob Input)} (h : first.Sublist second)
    (hnil : attemptsOf second = []) : attemptsOf first = [] :=
  List.sublist_nil.mp (hnil ▸ h.filterMap _)

/-! ### Frames -/

/-- A frozen entry stays frozen. -/
def KeepsFrozen (migration : RequestId) (object : ObjectId) (store next : Store σ Input) : Prop :=
  ∀ entry, store.entryAt object = some entry → frozenBy entry migration = true →
    ∃ after, next.entryAt object = some after ∧ frozenBy after migration = true

/-- An operation that lets nothing into a mailbox and opens no frozen object. -/
structure KeepsStill (migration : RequestId) (object : ObjectId) (store next : Store σ Input) :
    Prop where
  queue : QueueLe next store
  frozen : KeepsFrozen migration object store next
  shut : Shut migration object store → Shut migration object next

theorem KeepsStill.refl (migration : RequestId) (object : ObjectId) (store : Store σ Input) :
    KeepsStill migration object store store :=
  ⟨.refl store, fun entry hentry hfrozen => ⟨entry, hentry, hfrozen⟩, id⟩

theorem KeepsStill.of_quiet {migration : RequestId} {object : ObjectId}
    {store next : Store σ Input} (h : Quiet store next) (hle : QueueLe next store) :
    KeepsStill migration object store next := by
  refine ⟨hle, fun entry hentry hfrozen => ?_, fun hshut => hshut.quiet h hle⟩
  obtain ⟨after, hafter, hface⟩ := h.after_of hentry
  refine ⟨after, hafter, ?_⟩
  obtain ⟨expiresAt, hlife⟩ := frozenBy_iff.mp hfrozen
  exact frozenBy_iff.mpr ⟨expiresAt, hface.lifecycle.trans hlife⟩

theorem KeepsStill.trans {migration : RequestId} {object : ObjectId}
    {store middle next : Store σ Input} (h₁ : KeepsStill migration object store middle)
    (h₂ : KeepsStill migration object middle next) : KeepsStill migration object store next := by
  refine ⟨h₁.queue.trans h₂.queue, fun entry hentry hfrozen => ?_, fun h => h₂.shut (h₁.shut h)⟩
  obtain ⟨between, hbetween, hstill⟩ := h₁.frozen entry hentry hfrozen
  exact h₂.frozen between hbetween hstill

theorem collect_keepsStill (migration : RequestId) (object : ObjectId) (store : Store σ Input)
    (other : ObjectId) : KeepsStill migration object store (store.collect other) :=
  ⟨collect_queueLe store other,
    fun entry hentry hfrozen => ⟨entry, collect_frozenBy hentry hfrozen other, hfrozen⟩,
    fun hshut => hshut.collect other⟩

theorem expire_keepsStill {migration : RequestId} {object : ObjectId} {store : Store σ Input}
    {now : Nat} {order : List ObjectId} (hperm : order.Perm store.entries.keys)
    (hthaws : expiryThaws store object migration now = false) :
    KeepsStill migration object store (store.expire order now) := by
  have hdue : ∀ entry, store.entryAt object = some entry → frozenBy entry migration = true →
      freezeOverdue entry now = false := by
    intro entry hentry hfrozen
    have hlook : store.entries.lookup object = some entry := hentry
    simpa [expiryThaws, hlook, hfrozen] using hthaws
  refine ⟨expire_queueLe now order store, fun entry hentry hfrozen => ?_, fun hshut =>
    hshut.expire now hperm hdue⟩
  obtain ⟨hafter, hstill⟩ := expire_frozenBy now hperm hentry hfrozen (hdue entry hentry hfrozen)
  exact ⟨_, hafter, hstill⟩

theorem finishStore_keepsStill (migration : RequestId) (object : ObjectId)
    (store : Store σ Input) (running : Running σ) :
    KeepsStill migration object store (World.finishStore store running) := by
  have hcomplete : KeepsStill migration object store (store.complete running.job) :=
    .of_quiet (complete_quiet _ _) (complete_queueLe _ _)
  unfold World.finishStore
  split
  · exact hcomplete.trans (collect_keepsStill _ _ _ _)
  · exact hcomplete

/-- The queued freeze after an operation at one locality. -/
theorem KeepsStill.queued {migration : RequestId} {object : ObjectId}
    {stores : LocalityId → Store σ Input} {locality : LocalityId} {store : Store σ Input}
    (h : KeepsStill migration object (stores locality) store)
    (hqueued : ∀ locality entry, (stores locality).entryAt object = some entry →
      attemptsOf entry.admission.queue ≠ [] →
      frozenBy entry migration = true ∧ attemptsOf entry.admission.queue.dropLast = [])
    {other : LocalityId} {entry : ObjectEntry σ Input}
    (hentry : (Function.update stores locality store other).entryAt object = some entry)
    (hne : attemptsOf entry.admission.queue ≠ []) :
    frozenBy entry migration = true ∧ attemptsOf entry.admission.queue.dropLast = [] := by
  by_cases heq : other = locality
  · subst heq
    rw [Function.update_self] at hentry
    rcases h.queue object entry hentry with hnil | ⟨before, hbefore, hsub⟩
    · rw [hnil] at hne
      exact absurd rfl hne
    · obtain ⟨hfrozen, hlast⟩ := hqueued other before hbefore
        fun hnil => hne (attemptsOf_sublist hsub hnil)
      obtain ⟨after, hafter, hstill⟩ := h.frozen before hbefore hfrozen
      rw [hentry] at hafter
      cases hafter
      exact ⟨hstill, attemptsOf_sublist (sublist_dropLast hsub) hlast⟩
  · rw [Function.update_of_ne heq] at hentry
    exact hqueued other entry hentry hne

/-- A frozen source with an empty mailbox after an operation at one locality. -/
theorem KeepsStill.frozen_empty {migration : RequestId} {object : ObjectId}
    {stores : LocalityId → Store σ Input} {locality : LocalityId} {store : Store σ Input}
    (h : KeepsStill migration object (stores locality) store) {other : LocalityId}
    (hfrozen : ∃ entry, (stores other).entryAt object = some entry ∧
      frozenBy entry migration = true ∧ entry.admission.queue = []) :
    ∃ entry, (Function.update stores locality store other).entryAt object = some entry ∧
      frozenBy entry migration = true ∧ entry.admission.queue = [] := by
  obtain ⟨entry, hentry, hfrozen, hqueue⟩ := hfrozen
  by_cases heq : other = locality
  · subst heq
    rw [Function.update_self]
    obtain ⟨after, hafter, hstill⟩ := h.frozen entry hentry hfrozen
    refine ⟨after, hafter, hstill, ?_⟩
    rcases h.queue object after hafter with hnil | ⟨before, hbefore, hsub⟩
    · exact hnil
    · rw [hentry] at hbefore
      cases hbefore
      rw [hqueue] at hsub
      exact List.sublist_nil.mp hsub
  · rw [Function.update_of_ne heq]
    exact ⟨entry, hentry, hfrozen, hqueue⟩

theorem KeepsStill.shut_update {migration : RequestId} {object : ObjectId}
    {stores : LocalityId → Store σ Input} {locality : LocalityId} {store : Store σ Input}
    (h : KeepsStill migration object (stores locality) store) {other : LocalityId}
    (hshut : Shut migration object (stores other)) :
    Shut migration object (Function.update stores locality store other) := by
  by_cases heq : other = locality
  · subst heq
    rw [Function.update_self]
    exact h.shut hshut
  · rw [Function.update_of_ne heq]
    exact hshut

/-! ### Steps of the stores and the calls -/

theorem reopened_congr (hplan : next.plan = w.plan)
    (hinstalled : next.history.installed = w.history.installed) {source : LocalityId} :
    reopened next source ↔ reopened w source := by
  unfold reopened
  rw [hplan, hinstalled]

/-- Nothing changes but the clock, the coordinator and its calls. -/
theorem Still.same (h : Still w) (hplan : next.plan = w.plan) (hstores : next.stores = w.stores)
    (hrunning : next.running = w.running)
    (hsnapshot : next.history.snapshot = w.history.snapshot)
    (hinstalled : next.history.installed = w.history.installed)
    (hlate : next.history.late = w.history.late) : Still next where
  queued := by
    rw [hplan, hstores]
    exact h.queued
  started := by
    rw [hplan, hstores, hrunning]
    exact h.started
  shut := by
    intro source state hsome hopen
    rw [reopened_congr hplan hinstalled] at hopen
    rw [hplan, hstores, hrunning]
    exact h.shut source state (hsnapshot ▸ hsome) hopen
  late := hlate.trans h.late

/-- A store changes without letting anything in, and started jobs go on or
    disappear. -/
theorem Still.move (h : Still w) {locality : LocalityId} {store : Store σ Input}
    (hkeeps : KeepsStill w.plan.migration w.plan.object (w.stores locality) store)
    (hplan : next.plan = w.plan) (hstores : next.stores = Function.update w.stores locality store)
    (hsnapshot : next.history.snapshot = w.history.snapshot)
    (hinstalled : next.history.installed = w.history.installed)
    (hlate : next.history.late = false)
    (hjobs : ∀ running ∈ next.running, ∃ before ∈ w.running,
      running.locality = before.locality ∧ running.job = before.job ∧
      running.work = before.work ∧ (before.ran = true → running.ran = true)) : Still next where
  queued := by
    rw [hplan, hstores]
    exact fun other entry hentry hne => hkeeps.queued h.queued hentry hne
  started := by
    rw [hplan, hstores]
    intro running hrunning attempt packet hwork hran
    obtain ⟨before, hbefore, hlocality, -, hsame, hmono⟩ := hjobs running hrunning
    have hunrun : before.ran = false := by
      cases hbran : before.ran with
      | false => rfl
      | true => exact (hmono hbran).symm.trans hran
    rw [hlocality]
    exact hkeeps.frozen_empty
      (h.started before hbefore attempt packet (hsame.symm.trans hwork) hunrun)
  shut := by
    intro source state hsome hopen
    rw [reopened_congr hplan hinstalled] at hopen
    obtain ⟨hshut, hran⟩ := h.shut source state (hsnapshot ▸ hsome) hopen
    rw [hplan, hstores]
    refine ⟨hkeeps.shut_update hshut, fun running hrunning hwrites => ?_⟩
    obtain ⟨before, hbefore, hlocality, hjob, -, hmono⟩ := hjobs running hrunning
    refine hmono (hran before hbefore ?_)
    unfold Running.writes Running.on at hwrites ⊢
    rw [← hlocality, ← hjob]
    exact hwrites
  late := hlate

/-- A locality that serves the object is neither frozen nor shut. -/
theorem Still.resident (h : Still w) {locality : LocalityId} {entry : ObjectEntry σ Input}
    (hentry : (w.stores locality).entryAt w.plan.object = some entry)
    (hlife : entry.lifecycle = .resident) :
    attemptsOf entry.admission.queue = [] ∧
    (∀ running ∈ w.running, ∀ attempt packet, running.work = .freeze attempt packet →
      running.ran = false → running.locality ≠ locality) ∧
    ∀ source state, w.history.snapshot = some (source, state) → ¬ reopened w source →
      source ≠ locality := by
  have hopen : frozenBy entry w.plan.migration = false := by simp [frozenBy, hlife]
  refine ⟨?_, ?_, ?_⟩
  · by_contra hne
    rw [(h.queued locality entry hentry hne).1] at hopen
    cases hopen
  · rintro running hrunning attempt packet hwork hran rfl
    obtain ⟨found, hfound, hfrozen, -⟩ := h.started running hrunning attempt packet hwork hran
    rw [hentry] at hfound
    cases hfound
    rw [hfrozen] at hopen
    cases hopen
  · rintro source state hsome hclosed rfl
    exact ((h.shut source state hsome hclosed).1 entry hentry).lifecycle hlife

/-- A call is let in where the object is served. -/
theorem Still.serve (h : Still w) {locality : LocalityId} {store : Store σ Input}
    {entry : ObjectEntry σ Input} {new : List (Running σ)}
    (hentry : (w.stores locality).entryAt w.plan.object = some entry)
    (hlife : entry.lifecycle = .resident) (hplan : next.plan = w.plan)
    (hstores : next.stores = Function.update w.stores locality store)
    (hrunning : next.running = w.running ++ new) (hhistory : next.history = w.history)
    (hqueue : ∀ after, store.entryAt w.plan.object = some after →
      attemptsOf after.admission.queue = attemptsOf entry.admission.queue)
    (hnew : ∀ running ∈ new, running.locality = locality ∧ running.work.attempt? = none) :
    Still next := by
  obtain ⟨hnil, hfreezes, hsource⟩ := h.resident hentry hlife
  constructor
  · rw [hplan, hstores]
    intro other found hfound hne
    by_cases heq : other = locality
    · subst heq
      rw [Function.update_self] at hfound
      rw [hqueue found hfound] at hne
      exact absurd hnil hne
    · rw [Function.update_of_ne heq] at hfound
      exact h.queued other found hfound hne
  · rw [hplan, hstores, hrunning]
    intro running hmem attempt packet hwork hran
    rcases List.mem_append.mp hmem with hold | hadded
    · rw [Function.update_of_ne (hfreezes running hold attempt packet hwork hran)]
      exact h.started running hold attempt packet hwork hran
    · have hcall := (hnew running hadded).2
      rw [hwork] at hcall
      cases hcall
  · intro source state hsome hopen
    rw [reopened_congr hplan (by rw [hhistory])] at hopen
    rw [hhistory] at hsome
    have haway := hsource source state hsome hopen
    obtain ⟨hshut, hran⟩ := h.shut source state hsome hopen
    rw [hplan, hstores, hrunning, Function.update_of_ne haway]
    refine ⟨hshut, fun running hmem hwrites => ?_⟩
    rcases List.mem_append.mp hmem with hold | hadded
    · exact hran running hold hwrites
    · simp [Running.writes, Running.on, (hnew running hadded).1, haway.symm] at hwrites
  · rw [hhistory]
    exact h.late

theorem Still.deliverCall (h : Still w) {locality : LocalityId} {actionId : ActionId}
    {objectType : ObjectTypeId} {epoch : Nat} {payload : Segments} {request : RequestId}
    {domain : DomainId} {domainAvailable : Bool}
    (hnext : w.deliverCall locality actionId objectType epoch payload request domain
      domainAvailable = some next) : Still next := by
  unfold World.deliverCall at hnext
  split at hnext
  · cases hnext
  case h_2 read placement haccess =>
    simp only at hnext
    generalize hjob : (ActionJob.mk request.origin request actionId domain
      (Input.call objectType epoch payload) 0 false none) = job at hnext
    have hinput : job.input.attempt? = none := by rw [← hjob]; rfl
    generalize hresult : (w.stores locality).admitTo ⟨w.plan.object, objectType, epoch, none⟩
      placement read job domainAvailable w.now = result at hnext
    rcases (w.stores locality).admitTo_cases ⟨w.plan.object, objectType, epoch, none⟩ placement read
      job domainAvailable w.now with ⟨error, hsame⟩ |
      ⟨entry, lifecycle, hentry, -, -, hlife, -, hends⟩
    · rw [hsame] at hresult
      subst hresult
      cases hnext
      exact h.same rfl (Function.update_eq_self _ _) rfl rfl rfl rfl
    · have hresident := (admitLifecycle_call rfl hlife).1
      rw [hresult] at hends
      rcases hends with ⟨error, herror, hset⟩ | ⟨-, -, hok, hset⟩ | ⟨-, -, -, hok, hset⟩ |
        ⟨-, hqueued, hset⟩
      · rw [herror] at hnext
        cases hnext
        refine h.serve hentry hresident rfl rfl (List.append_nil _).symm rfl ?_ (by simp)
        intro after hafter
        cases hset.symm.trans hafter
        rfl
      · rw [hok] at hnext
        cases hnext
        refine h.serve hentry hresident rfl rfl rfl rfl ?_ ?_
        · intro after hafter
          cases hset.symm.trans hafter
          rfl
        · rw [← hjob]
          simp [World.toRunning, Work.attempt?]
      · rw [hok] at hnext
        cases hnext
        refine h.serve hentry hresident rfl rfl rfl rfl ?_ ?_
        · intro after hafter
          cases hset.symm.trans hafter
          unfold Admission.start
          split <;> rfl
        · rw [← hjob]
          simp [World.toRunning, Work.attempt?]
      · rw [hqueued] at hnext
        cases hnext
        refine h.serve hentry hresident rfl rfl (List.append_nil _).symm rfl ?_ (by simp)
        intro after hafter
        cases hset.symm.trans hafter
        simp [attemptsOf, List.filterMap_append, hinput]

theorem Still.directCall (h : Still w) (locality : LocalityId) (objectType : ObjectTypeId)
    (epoch : Nat) (update : Option (σ → σ)) :
    Still (w.directCall locality objectType epoch update) := by
  unfold World.directCall
  simp only
  rcases (w.stores locality).admitLocal_cases w.plan.object objectType epoch update.isNone with
    ⟨error, hsame⟩ | ⟨entry, hentry, hlife, -, -, -, hok, -, hset⟩
  · rw [hsame]
    exact h
  · rw [hok]
    refine h.serve hentry hlife rfl rfl rfl rfl ?_ (by simp [Work.attempt?])
    intro after hafter
    cases hset.symm.trans hafter
    unfold Admission.start
    split <;> rfl

/-- A freeze leaves its mailbox last. -/
theorem retried_freeze {entry : ObjectEntry σ Input} {started left : List (ActionJob Input)}
    (hretried : Retried entry started left)
    (hlast : attemptsOf entry.admission.queue.dropLast = []) {job : ActionJob Input}
    {attempt : Nat} {packet : MigrationPacket} (hjob : job ∈ started)
    (hinput : job.input = .freeze attempt packet) : left = [] := by
  by_contra hne
  have hmem : job ∈ entry.admission.queue.dropLast := by
    rw [← hretried.split, List.dropLast_append_of_ne_nil hne]
    exact List.mem_append_left _ hjob
  have hattempt : attempt ∈ attemptsOf entry.admission.queue.dropLast :=
    mem_attemptsOf.mpr ⟨job, hmem, packet, hinput⟩
  rw [hlast] at hattempt
  cases hattempt

theorem Still.retry (hbase : Base w) (h : Still w) (locality : LocalityId)
    {order : List ObjectId} (hnodup : order.Nodup) (max : Nat)
    (available : Nat → DomainId → Bool) :
    Still ((w.setStore locality ((w.stores locality).retryReady order max available).2).start
      locality ((w.stores locality).retryReady order max available).1) := by
  obtain ⟨hle, hfrom⟩ := (w.stores locality).retryReady_from order max available
  have hkeeps : KeepsStill w.plan.migration w.plan.object (w.stores locality) _ :=
    .of_quiet (retryReady_quiet (w.stores locality) order max available) hle
  have htagged := hbase.mailboxes.tagged locality
  -- a started job of the object comes out of the object's own mailbox
  have hown : ∀ job ∈ ((w.stores locality).retryReady order max available).1,
      (World.toRunning (σ := σ) locality job).job.object = w.plan.object →
      taggedWith w.plan.object job = true ∧ ∃ entry,
        (w.stores locality).entryAt w.plan.object = some entry ∧ job ∈ entry.admission.queue := by
    intro job hjob hobject
    obtain ⟨object, entry, hentry, hqueue⟩ := hfrom job hjob
    obtain ⟨read, htag⟩ := htagged object entry hentry job hqueue
    have hsame : object = w.plan.object := by simpa [World.toRunning, htag] using hobject
    subst hsame
    exact ⟨by simp [taggedWith, htag], entry, hentry, hqueue⟩
  constructor
  · exact fun other entry hentry hne => hkeeps.queued h.queued hentry hne
  · intro running hmem attempt packet hwork hran
    rcases List.mem_append.mp hmem with hold | hnew
    · exact hkeeps.frozen_empty (h.started running hold attempt packet hwork hran)
    · obtain ⟨job, hjob, rfl⟩ := List.mem_map.mp hnew
      have hinput := input_of_toRunning hwork
      obtain ⟨object, entry, hentry, hqueue⟩ := hfrom job hjob
      obtain ⟨rfl, -⟩ := hbase.mailboxes.queued locality object entry hentry job hqueue attempt
        packet hinput
      obtain ⟨read, htag⟩ := htagged _ entry hentry job hqueue
      obtain ⟨started, left, hretried, hset, hfilter⟩ := retryReady_entry available max hnodup
        htagged hentry
      have hne : attemptsOf entry.admission.queue ≠ [] :=
        List.ne_nil_of_mem (mem_attemptsOf.mpr ⟨job, hqueue, packet, hinput⟩)
      obtain ⟨hfrozen, hlast⟩ := h.queued locality entry hentry hne
      have hleft : left = [] := by
        refine retried_freeze hretried hlast (hfilter ▸ List.mem_filter.mpr ⟨hjob, ?_⟩) hinput
        simp [taggedWith, htag]
      refine ⟨startReady entry started left, ?_, hfrozen, hleft⟩
      change (Function.update w.stores locality _ locality).entryAt w.plan.object = _
      rw [Function.update_self]
      exact hset
  · intro source state hsome hopen
    obtain ⟨hshut, hran⟩ := h.shut source state hsome hopen
    refine ⟨hkeeps.shut_update hshut, fun running hmem hwrites => ?_⟩
    rcases List.mem_append.mp hmem with hold | hnew
    · exact hran running hold hwrites
    · obtain ⟨job, hjob, rfl⟩ := List.mem_map.mp hnew
      simp only [Running.writes, Running.on, Bool.and_eq_true, decide_eq_true_eq] at hwrites
      have hplace : locality = source := hwrites.1.1
      subst hplace
      obtain ⟨htag, entry, hentry, hqueue⟩ := hown job hjob hwrites.1.2
      rw [(hshut entry hentry).queue] at hqueue
      cases hqueue
  · exact h.late

/-- While a call of the coordinator is on its way no freeze waits or has started. -/
theorem Base.no_other_freeze (hbase : Base w) (hgave : w.history.gaveUp = false) {attempt : Nat}
    {request : Request} (hsent : w.calls attempt = .sent request) :
    (∀ locality entry, (w.stores locality).entryAt w.plan.object = some entry →
      attemptsOf entry.admission.queue = []) ∧
    ∀ running ∈ w.running, running.work.attempt? = none := by
  have hlatest : attempt = w.coordinator.attempt :=
    hbase.protocol.live_eq hgave (by rw [hsent]; rfl)
  refine ⟨fun locality entry hentry => ?_, fun running hrunning => ?_⟩
  · apply List.eq_nil_iff_forall_not_mem.mpr
    intro other hother
    obtain ⟨job, hjob, packet, hinput⟩ := mem_attemptsOf.mp hother
    obtain ⟨-, hcall, -⟩ := hbase.mailboxes.queued locality _ entry hentry job hjob other packet
      hinput
    have hsame : other = attempt :=
      (hbase.protocol.live_eq hgave (by rw [hcall]; rfl)).trans hlatest.symm
    rw [hsame, hsent] at hcall
    cases hcall
  · cases hwork : running.work with
    | freeze other packet =>
      obtain ⟨hcall, -⟩ := hbase.mailboxes.started running hrunning other packet hwork
      have hsame : other = attempt :=
        (hbase.protocol.live_eq hgave (by rw [hcall]; rfl)).trans hlatest.symm
      rw [hsame, hsent] at hcall
      cases hcall
    | action actionId objectType epoch payload => rfl
    | direct update => rfl

/-- A freeze arrives at its source. -/
theorem Still.deliverFreeze {registry : LocalityId → ObjectRegistry σ} (hbase : Base w)
    (hgave : w.history.gaveUp = false) (hcarried : Carried registry w) (h : Still w)
    {attempt : Nat} {request : Request} (hsent : w.calls attempt = .sent request)
    (hstep : request.step = .freeze) (domainAvailable : Bool) :
    Still (w.deliverFreeze attempt request domainAvailable) := by
  have hours := hbase.protocol.ours attempt request hsent
  obtain ⟨hqueues, hjobs⟩ := hbase.no_other_freeze hgave hsent
  have hnone : w.history.snapshot = none := by
    by_contra hne
    have hfresh := (hcarried.fresh hne).1 attempt
    rw [hsent] at hfresh
    simp [CallState.fresh, hstep] at hfresh
  -- with no freeze elsewhere only the locality of this one matters
  have hstill : ∀ next : World σ, next.plan = w.plan →
      next.history = w.history →
      (∀ other, other ≠ request.place.locality → next.stores other = w.stores other) →
      (∀ entry, (next.stores request.place.locality).entryAt w.plan.object = some entry →
        attemptsOf entry.admission.queue ≠ [] →
        frozenBy entry w.plan.migration = true ∧
          attemptsOf entry.admission.queue.dropLast = []) →
      (∀ running ∈ next.running, running ∈ w.running ∨
        (running.locality = request.place.locality ∧
          ∃ entry, (next.stores request.place.locality).entryAt w.plan.object = some entry ∧
            frozenBy entry w.plan.migration = true ∧ entry.admission.queue = [])) →
      Still next := by
    intro next hplan hhistory hothers hqueue hrunning
    constructor
    · rw [hplan]
      intro other entry hentry hne
      by_cases heq : other = request.place.locality
      · subst heq
        exact hqueue entry hentry hne
      · rw [hothers other heq] at hentry
        exact absurd (hqueues other entry hentry) hne
    · rw [hplan]
      intro running hmem other packet hwork _
      rcases hrunning running hmem with hold | ⟨hlocality, hfrozen⟩
      · have hcall := hjobs running hold
        rw [hwork] at hcall
        cases hcall
      · rw [hlocality]
        exact hfrozen
    · rw [hhistory, hnone]
      simp
    · rw [hhistory]
      exact h.late
  unfold World.deliverFreeze
  simp only
  have hcases := (w.stores request.place.locality).admitTo_cases
    ⟨request.packet.object, request.packet.objectType, request.packet.fromLocation.epoch,
      some request.packet.migration⟩ false false
    (World.freezeJob attempt request.place request.packet) domainAvailable w.now
  simp only at hcases
  generalize (w.stores request.place.locality).admitTo _ false false _ domainAvailable w.now =
    result at hcases ⊢
  have hself : ∀ (other : LocalityId) (store : Store σ Input), other ≠ request.place.locality →
      Function.update w.stores request.place.locality store other = w.stores other :=
    fun other store hne => Function.update_of_ne hne _ _
  rcases hcases with ⟨error, hsame⟩ | ⟨entry, lifecycle, hentry, -, -, hlife, htouch, hends⟩
  · rw [hsame]
    refine hstill _ rfl rfl (fun other => hself other _) ?_ fun running hmem => .inl hmem
    intro found hfound hne
    change (Function.update w.stores request.place.locality _ request.place.locality).entryAt _ = _
      at hfound
    rw [Function.update_self] at hfound
    exact absurd (hqueues _ found hfound) hne
  · obtain ⟨expires, rfl⟩ := admitLifecycle_freeze rfl hlife
    rw [hours.object] at hentry
    have hempty := hqueues _ entry hentry
    have hfrozen : ∀ after : ObjectEntry σ Input,
        after.lifecycle = .freezing request.packet.migration expires →
        frozenBy after w.plan.migration = true := fun after hafter =>
      frozenBy_iff.mpr ⟨expires, by rw [hafter, hours.migration]⟩
    have hat : ∀ store : Store σ Input,
        Function.update w.stores request.place.locality store request.place.locality = store :=
      fun store => Function.update_self _ _ _
    rw [hours.object] at hends
    rcases hends with ⟨error, hresult, hset⟩ | ⟨hfalse, -⟩ | ⟨-, hqueue, -, hresult, hset⟩ |
      ⟨-, hresult, hset⟩
    · rw [hresult]
      refine hstill _ rfl rfl (fun other => hself other _) ?_ fun running hmem => .inl hmem
      intro found hfound hne
      change (Function.update w.stores _ _ request.place.locality).entryAt _ = _ at hfound
      rw [hat] at hfound
      cases hset.symm.trans hfound
      exact absurd hempty hne
    · cases hfalse
    · rw [hresult]
      have hqueue' : (entry.admission.start false).queue = [] := hqueue
      refine hstill _ rfl rfl (fun other => hself other _) ?_ fun running hmem => ?_
      · intro found hfound hne
        change (Function.update w.stores _ _ request.place.locality).entryAt _ = _ at hfound
        rw [hat] at hfound
        cases hset.symm.trans hfound
        exact absurd (by rw [hqueue']; rfl) hne
      · rcases List.mem_append.mp hmem with hold | hnew
        · exact .inl hold
        · obtain ⟨job, -, rfl⟩ := List.mem_map.mp hnew
          refine .inr ⟨rfl, ?_⟩
          change ∃ found, (Function.update w.stores _ _ request.place.locality).entryAt _ =
            some found ∧ _
          rw [hat]
          exact ⟨_, hset, hfrozen _ rfl, hqueue'⟩
    · rw [hresult]
      refine hstill _ rfl rfl (fun other => hself other _) ?_ fun running hmem => .inl hmem
      intro found hfound _
      change (Function.update w.stores _ _ request.place.locality).entryAt _ = _ at hfound
      rw [hat] at hfound
      cases hset.symm.trans hfound
      exact ⟨hfrozen _ rfl, by simpa using hempty⟩

/-- The freeze runs alone: whatever else writes at its locality has run. -/
theorem Exclusive.alone {object : ObjectId} {stores : LocalityId → Store σ Input}
    {running : List (Running σ)} (h : Exclusive object stores running) {index : Nat}
    {found : Running σ} (hfound : running[index]? = some found)
    (hwrites : found.writes found.locality object = true) {other : Running σ}
    (hother : other ∈ running.eraseIdx index) : other.writes found.locality object = false := by
  have hcount := (h found.locality).writers_le_one
  rw [countP_eraseIdx hfound, if_pos hwrites] at hcount
  have hzero : (running.eraseIdx index).countP
      (fun running => running.writes found.locality object) = 0 := by omega
  simpa using List.countP_eq_zero.mp hzero other hother

/-- The freeze runs: its snapshot finds the source shut. -/
theorem Still.runFreeze {registry : LocalityId → ObjectRegistry σ} (hbase : Base w)
    (hgave : w.history.gaveUp = false) (hcarried : Carried registry w)
    (htags : FreezeTags w.plan.object w.stores w.running)
    (hexclusive : Exclusive w.plan.object w.stores w.running) (h : Still w)
    {index attempt : Nat} {packet : MigrationPacket} {running : Running σ} (contended : Bool)
    (hrunning : w.running[index]? = some running) (hran : running.ran = false)
    (hwork : running.work = .freeze attempt packet) :
    Still (w.runJob index running contended) := by
  have hmem := List.mem_of_getElem? hrunning
  obtain ⟨hcall, hours, -⟩ := hbase.mailboxes.started running hmem attempt packet hwork
  obtain ⟨-, hothers⟩ := hbase.only_freeze hgave hrunning hwork
  obtain ⟨entry, hentry, hfrozen, hqueue⟩ := h.started running hmem attempt packet hwork hran
  have hjob := (htags.started running hmem attempt packet hwork).1
  have hwrites : running.writes running.locality w.plan.object = true := by
    simp [Running.writes, Running.on, hjob, ObjectJob.exclusive]
  have hnone : w.history.snapshot = none := by
    by_contra hne
    rw [(hcarried.fresh hne).2 running hmem attempt packet hwork] at hran
    cases hran
  have hle := freezeMigration_queueLe (w.stores running.locality) packet contended w.now
  have hcases := (w.stores running.locality).freezeMigration_cases packet contended w.now
  unfold World.runJob
  rw [hwork]
  simp only at hcases ⊢
  generalize (w.stores running.locality).freezeMigration packet contended w.now = result at *
  have hat : Function.update w.stores running.locality result.2 running.locality = result.2 :=
    Function.update_self _ _ _
  constructor
  · intro other found hfound hne
    change (Function.update w.stores running.locality result.2 other).entryAt w.plan.object =
      some found at hfound
    by_cases heq : other = running.locality
    · subst heq
      rw [hat] at hfound
      rcases hle _ found hfound with hnil | ⟨before, hbefore, hsub⟩
      · rw [hnil] at hne
        exact absurd rfl hne
      · rw [hentry] at hbefore
        cases hbefore
        rw [hqueue] at hsub
        rw [List.sublist_nil.mp hsub] at hne
        exact absurd rfl hne
    · rw [Function.update_of_ne heq] at hfound
      exact h.queued other found hfound hne
  · intro found hfound other packet' hfreezes hunrun
    rcases mem_set_cases hrunning hfound with rfl | hother
    · cases hunrun
    · have hcalls := hothers found hother
      rw [hfreezes] at hcalls
      cases hcalls
  · intro source state hsome _
    rw [← hours.object] at hentry
    rcases hcases with ⟨error, hsame⟩ |
      ⟨before, freezer, lifecycle, hbefore, -, -, hlife, ⟨error, -, herror, -⟩ |
        ⟨error, _, _, -, herror, -⟩ | ⟨taken, snapshot, bytes, -, -, hok, hset⟩⟩
    · simp only [hsame, hnone] at hsome
      cases hsome
    · simp only [herror, hnone] at hsome
      cases hsome
    · simp only [herror, hnone] at hsome
      cases hsome
    · have hsource : source = running.locality := by
        have hstate : World.stateAt result.2 packet.object = some (freezer taken).2 := by
          change (result.2.entryAt packet.object).bind _ = _
          rw [hset, entryAt_setEntry_self]
          rfl
        simp only [hok, hstate, Option.some.injEq, Prod.mk.injEq] at hsome
        exact hsome.1.symm
      subst hsource
      cases hentry.symm.trans hbefore
      refine ⟨?_, fun found hfound hfoundWrites => ?_⟩
      · intro after hafter
        change (Function.update w.stores running.locality result.2 running.locality).entryAt
          w.plan.object = some after at hafter
        rw [hat, ← hours.object, hset, entryAt_setEntry_self] at hafter
        cases hafter
        obtain ⟨expiresAt, hfreezing⟩ := frozenBy_iff.mp hfrozen
        rw [hfreezing] at hlife
        refine .of_frozenBy (frozenBy_iff.mpr ⟨expiresAt, ?_⟩) hqueue
        have hsame : packet.migration = w.plan.migration := hours.migration
        simp only [freezeLifecycle, hsame, ↓reduceIte, Except.ok.injEq] at hlife
        exact hlife.symm
      · rcases mem_set_cases hrunning hfound with rfl | hother
        · rfl
        · change found.writes running.locality w.plan.object = true at hfoundWrites
          rw [hexclusive.alone hrunning hwrites hother] at hfoundWrites
          cases hfoundWrites
  · exact h.late

/-- A migration step other than a freeze. -/
theorem Still.deliverStep (hbase : Base w) (hgave : w.history.gaveUp = false) (h : Still w)
    {attempt : Nat} {request : Request} (hsent : w.calls attempt = .sent request) :
    Still (w.deliverStep attempt request) := by
  have hours := hbase.protocol.ours attempt request hsent
  obtain ⟨hqueues, hjobs⟩ := hbase.no_other_freeze hgave hsent
  have hlatest := hbase.protocol.latest request
    (hbase.protocol.live_eq hgave (by rw [hsent]; rfl) ▸ hsent)
  obtain ⟨hsnapshot, -, -, hlate, -, hinstalled⟩ := record_cases w.history
    (w.stores request.place.locality) request.step request.packet w.now
  have hle := execute_queueLe (w.stores request.place.locality) request.step request.packet w.now
  constructor
  · intro other entry hentry hne
    change (Function.update w.stores request.place.locality _ other).entryAt w.plan.object =
      some entry at hentry
    by_cases heq : other = request.place.locality
    · subst heq
      rw [Function.update_self] at hentry
      rcases hle _ entry hentry with hnil | ⟨before, hbefore, hsub⟩
      · rw [hnil] at hne
        exact absurd rfl hne
      · exact absurd (attemptsOf_sublist hsub (hqueues _ before hbefore)) hne
    · rw [Function.update_of_ne heq] at hentry
      exact absurd (hqueues other entry hentry) hne
  · intro running hmem other packet hwork _
    have hcall := hjobs running hmem
    rw [hwork] at hcall
    cases hcall
  · intro source state hsome hopen
    have hbefore : ¬ reopened w source := by
      rintro ⟨hinst, hplace⟩
      refine hopen ⟨?_, hplace⟩
      change (World.record _ _ _ _ _).installed.isSome = true
      rcases hinstalled with hsame | ⟨-, _, _, -, -, -, hnew⟩
      · rw [hsame]
        exact hinst
      · rw [hnew]
        rfl
    obtain ⟨hshut, hran⟩ := h.shut source state (hsnapshot ▸ hsome) hbefore
    refine ⟨?_, hran⟩
    change Shut w.plan.migration w.plan.object
      (Function.update w.stores request.place.locality _ source)
    by_cases heq : source = request.place.locality
    · subst heq
      rw [Function.update_self]
      rw [← hours.object] at hshut ⊢
      cases hstep : request.step with
      | freeze => exact hshut
      | prepare => exact hshut.prepare w.now
      | commit => exact hshut.commit w.now
      | activate =>
        refine hshut.activate fun answer hok => hopen ⟨?_, ?_⟩
        · change (World.record _ _ _ _ _).installed.isSome = true
          rw [hstep]
          rcases (w.stores request.place.locality).activateMigration_cases request.packet with
            ⟨error, hsame⟩ | ⟨entry, prepared, hentry, -, hprepared, -,
              ⟨error, -, herror, -⟩ | ⟨-, -, hdone, -⟩⟩
          · rw [hsame] at hok
            cases hok
          · rw [herror] at hok
            cases hok
          · change (World.record _ _ .activate _
              ((w.stores request.place.locality).activateMigration request.packet).1).installed.isSome
                = true
            rw [(record_activate _ _ _ _).2, hdone]
            simp only [hentry, hprepared, Option.bind_some, Option.map_some, Option.isSome_some]
        · rw [hlatest.destination (.inr hstep)]
          rfl
      | rollback =>
        exact absurd (hbase.protocol.rollbackSent attempt request hsent hstep) (by rw [hgave]; simp)
      | retire => exact hshut.retire w.now
    · rw [Function.update_of_ne heq]
      exact hshut
  · change (World.record _ _ _ _ _).late = false
    rw [hlate]
    exact h.late

/-- A job that has not run does not run late. -/
theorem Still.isLate_eq_false (h : Still w) {running : Running σ} (hmem : running ∈ w.running)
    (hran : running.ran = false) : w.isLate running = false := by
  unfold World.isLate
  split
  · rfl
  case h_2 source state hsome =>
    by_contra hlate
    rw [Bool.not_eq_false] at hlate
    simp only [Bool.and_eq_true, decide_eq_true_eq, Bool.not_eq_true',
      Bool.and_eq_false_iff, decide_eq_false_iff_not] at hlate
    obtain ⟨⟨⟨⟨hplace, hobject⟩, hread⟩, hplacement⟩, hclosed⟩ := hlate
    have hopen : ¬ reopened w source := by
      rintro ⟨hsome, hdest⟩
      rcases hclosed with hnone | haway
      · rw [hsome] at hnone
        cases hnone
      · exact haway hdest
    have hwrites : running.writes source w.plan.object = true := by
      simp [Running.writes, Running.on, ObjectJob.exclusive, hplace, hobject, hread, hplacement]
    rw [(h.shut source state hsome hopen).2 running hmem hwrites] at hran
    cases hran

/-- A call of the object runs. -/
theorem Still.runCall (h : Still w) {index : Nat} {running : Running σ} (contended : Bool)
    (hrunning : w.running[index]? = some running) (hran : running.ran = false)
    (hcall : running.work.attempt? = none) : Still (w.runJob index running contended) := by
  have hlate : (w.history.late || w.isLate running) = false := by
    rw [h.late, h.isLate_eq_false (List.mem_of_getElem? hrunning) hran]
    rfl
  have hjobs : ∀ after : Running σ, after.locality = running.locality → after.job = running.job →
      after.work = running.work → after.ran = true → ∀ found ∈ w.running.set index after,
      ∃ before ∈ w.running, found.locality = before.locality ∧ found.job = before.job ∧
        found.work = before.work ∧ (before.ran = true → found.ran = true) := by
    intro after hplace hjob hwork hdone found hfound
    rcases mem_set_cases hrunning hfound with rfl | hother
    · exact ⟨running, List.mem_of_getElem? hrunning, hplace, hjob, hwork, fun _ => hdone⟩
    · exact ⟨found, List.mem_of_mem_eraseIdx hother, rfl, rfl, rfl, id⟩
  unfold World.runJob
  simp only
  split
  case h_1 actionId objectType epoch payload _ =>
    exact h.move (.of_quiet (executeAction_quiet _ _ _ _ _ _ _)
      (executeAction_queueLe _ _ _ _ _ _ _)) rfl rfl rfl rfl hlate (hjobs _ rfl rfl rfl rfl)
  case h_2 update _ =>
    refine h.move ?_ rfl rfl rfl rfl hlate (hjobs _ rfl rfl rfl rfl)
    rcases executeDirect_cases (w.stores running.locality) running.job.object update contended
      with hsame | ⟨write, -, hwrite⟩
    · rw [hsame]
      exact .refl _ _ _
    · rw [hwrite]
      exact .of_quiet (writeDirect_quiet _ _ _) (writeDirect_queueLe _ _ _)
  case h_3 attempt packet hwork =>
    rw [hwork] at hcall
    cases hcall

/-- A started job is removed. -/
theorem Still.remove (h : Still w) {locality : LocalityId} {store : Store σ Input}
    (hkeeps : KeepsStill w.plan.migration w.plan.object (w.stores locality) store)
    (hplan : next.plan = w.plan) (hstores : next.stores = Function.update w.stores locality store)
    (hhistory : next.history = w.history) {index : Nat}
    (hrunning : next.running = w.running.eraseIdx index) : Still next := by
  refine h.move hkeeps hplan hstores (by rw [hhistory]) (by rw [hhistory]) (hhistory ▸ h.late) ?_
  rw [hrunning]
  exact fun found hfound => ⟨found, List.mem_of_mem_eraseIdx hfound, rfl, rfl, rfl, id⟩

/-- A step of the stores that lets no freeze run out of time. -/
theorem Still.stepAside {registry : LocalityId → ObjectRegistry σ} (hbase : Base w)
    (hgave : w.history.gaveUp = false) (hcarrying : Carrying registry w)
    (hexclusive : Exclusive w.plan.object w.stores w.running) (h : Still w) {action : Action σ}
    (haside : action.isAside = true) (hfrozen : opensFreeze w action = false)
    (hnext : w.step action = some next) : Still next := by
  cases action with
  | tick elapsed =>
    cases hnext
    exact h.same rfl rfl rfl rfl rfl rfl
  | call locality actionId objectType epoch payload request domain domainAvailable =>
    exact h.deliverCall hnext
  | direct locality objectType epoch update =>
    cases hnext
    exact h.directCall locality objectType epoch update
  | retry locality order max available =>
    simp only [World.step] at hnext
    split at hnext
    case isTrue hnodup =>
      cases hnext
      exact h.retry hbase locality hnodup max available
    case isFalse => cases hnext
  | run index contended =>
    simp only [World.step] at hnext
    split at hnext
    case h_1 running hrunning =>
      split at hnext
      case isTrue => cases hnext
      case isFalse hran =>
        rw [Bool.not_eq_true] at hran
        cases hnext
        cases hwork : running.work with
        | freeze attempt packet =>
          exact h.runFreeze hbase hgave (hcarrying.carried hgave) hcarrying.tags hexclusive contended
            hrunning hran hwork
        | action actionId objectType epoch payload =>
          exact h.runCall contended hrunning hran (by rw [hwork]; rfl)
        | direct update => exact h.runCall contended hrunning hran (by rw [hwork]; rfl)
    case h_2 => cases hnext
  | finish index =>
    obtain ⟨running, hrunning, rfl⟩ := Option.map_eq_some_iff.mp hnext
    have hkeeps := finishStore_keepsStill w.plan.migration w.plan.object
      (w.stores running.locality) running
    unfold World.finishJob
    simp only
    split
    · exact h.remove hkeeps rfl rfl rfl rfl
    · exact h.remove hkeeps rfl rfl rfl rfl
  | abandon index =>
    simp only [World.step] at hnext
    split at hnext
    case h_1 running hrunning =>
      have hsame : w.stores = Function.update w.stores running.locality
        (w.stores running.locality) := (Function.update_eq_self _ _).symm
      split at hnext
      · cases hnext
        exact h.remove (.refl _ _ _) rfl hsame rfl rfl
      · cases hnext
        exact h.remove (.refl _ _ _) rfl hsame rfl rfl
    case h_2 => cases hnext
  | expire locality order =>
    simp only [World.step] at hnext
    split at hnext
    case isTrue hperm =>
      cases hnext
      exact h.move (expire_keepsStill hperm hfrozen) rfl rfl rfl rfl h.late
        fun found hfound => ⟨found, hfound, rfl, rfl, rfl, id⟩
    case isFalse => cases hnext
  | _ => cases haside

theorem Still.proceed (h : Still w) (reply : Reply) (sent rollbackSent : Bool) :
    Still (w.proceed reply sent rollbackSent) := by
  rw [proceed_eq]
  exact h.same rfl rfl rfl rfl rfl rfl

/-- One step in which no freeze runs out of time. -/
theorem Still.step {registry : LocalityId → ObjectRegistry σ} (hbase : Base w)
    (hgave : w.history.gaveUp = false) (hcarrying : Carrying registry w)
    (hexclusive : Exclusive w.plan.object w.stores w.running) (h : Still w) {action : Action σ}
    (hfrozen : opensFreeze w action = false) (hnext : w.step action = some next) : Still next := by
  cases w.step_stepped hnext with
  | aside haside => exact h.stepAside hbase hgave hcarrying hexclusive haside hfrozen hnext
  | freeze domainAvailable hsent hstep =>
    exact h.deliverFreeze hbase hgave (hcarrying.carried hgave) hsent hstep domainAvailable
  | execute domainAvailable hsent hstep => exact h.deliverStep hbase hgave hsent
  | refuse => exact h.same rfl rfl rfl rfl rfl rfl
  | lose => exact h.same rfl rfl rfl rfl rfl rfl
  | observe sent rollbackSent hanswered =>
    have hgone : Still (w.setCall w.coordinator.attempt .gone) := h.same rfl rfl rfl rfl rfl rfl
    exact hgone.proceed _ _ _
  | timeout sent rollbackSent => exact h.proceed _ _ _
  | drop => exact h.same rfl rfl rfl rfl rfl rfl

/-! ### Whole runs -/

/-- What the code needs from its surroundings: the coordinator hears about the commit,
    and no freeze of the migration runs out of time before or after it. -/
def unthawed (w : World σ) (action : Action σ) : Bool :=
  commitHeard w action &&
  match action with
  | .deliver attempt _ =>
    match w.calls attempt with
    | .sent request => !(request.step == .commit && w.history.thawed)
    | _ => true
  | _ => !(w.history.committed.isSome && opensFreeze w action)

/-- The parts of the invariant together. -/
structure Stilled (registry : LocalityId → ObjectRegistry σ) (w : World σ) : Prop where
  base : Base w
  decided : Decided w
  exclusive : Exclusive w.plan.object w.stores w.running
  carrying : Carrying registry w
  still : w.history.thawed = false → w.history.gaveUp = false → Still w
  committed : w.history.committed ≠ none → w.history.thawed = false

theorem Initial.stilled (h : Initial w) :
    Stilled (fun locality => (w.stores locality).registry) w :=
  ⟨h.base, h.decided, h.exclusive, h.carrying, fun _ _ => h.still,
    by rw [h.history]; simp [History.start]⟩

/-- What a step does to the flags the condition reads. -/
theorem Base.flags (hbase : Base w) {action : Action σ} (hnext : w.step action = some next) :
    next.history.thawed = (w.history.thawed || opensFreeze w action) ∧
    (next.history.gaveUp = false → w.history.gaveUp = false) ∧
    (next.history.committed = w.history.committed ∨ ∃ attempt domainAvailable request,
      action = .deliver attempt domainAvailable ∧ w.calls attempt = .sent request ∧
      request.step = .commit) := by
  by_cases haside : action.isAside = true
  · have hkeeps := hbase.aside haside hnext
    exact ⟨(hbase.moves haside hnext).thawed, fun h => hkeeps.gaveUp ▸ h, .inl hkeeps.committed⟩
  cases w.step_stepped hnext with
  | aside h => exact absurd h haside
  | freeze domainAvailable hsent hstep =>
    have hkeeps := deliverFreeze_aside hsent hstep domainAvailable
    exact ⟨(deliverFreeze_moves hsent hstep domainAvailable).thawed, fun h => hkeeps.gaveUp ▸ h,
      .inl hkeeps.committed⟩
  | @execute attempt request domainAvailable hsent hstep =>
    obtain ⟨-, hgave, hthawed, -, hcommitted, -⟩ := record_cases w.history
      (w.stores request.place.locality) request.step request.packet w.now
    refine ⟨hthawed.trans (Bool.or_false _).symm, fun h => hgave ▸ h, ?_⟩
    exact hcommitted.imp id fun hcommit => ⟨attempt, domainAvailable, request, rfl, hsent, hcommit⟩
  | refuse => exact ⟨(Bool.or_false _).symm, id, .inl rfl⟩
  | lose =>
    refine ⟨?_, id, .inl rfl⟩
    cases action with
    | expire => exact absurd rfl haside
    | _ => exact (Bool.or_false _).symm
  | observe sent rollbackSent hanswered =>
    refine ⟨?_, fun h => ?_, .inl ?_⟩
    · rw [proceed_eq]
      exact (Bool.or_false _).symm
    · exact @proceed_gaveUp _ (w.setCall w.coordinator.attempt .gone) _ _ _ h
    · rw [proceed_eq]
      rfl
  | timeout sent rollbackSent =>
    refine ⟨?_, proceed_gaveUp, .inl ?_⟩
    · rw [proceed_eq]
      exact (Bool.or_false _).symm
    · rw [proceed_eq]
  | drop => exact ⟨(Bool.or_false _).symm, id, .inl rfl⟩

/-- One step that keeps the frozen source closed. -/
theorem Stilled.step {registry : LocalityId → ObjectRegistry σ} (h : Stilled registry w)
    (hfaithful : Faithful registry w.plan.objectType) {action : Action σ}
    (hunthawed : unthawed w action = true) (hnext : w.step action = some next) :
    Stilled registry next := by
  unfold unthawed at hunthawed
  rw [Bool.and_eq_true] at hunthawed
  obtain ⟨hheard, hunthawed⟩ := hunthawed
  obtain ⟨hthawed, hgave, hcommitted⟩ := h.base.flags hnext
  refine ⟨h.base.step hnext, h.decided.step h.base hheard hnext, h.exclusive.step h.base hnext,
    h.carrying.step h.base hfaithful hheard hnext, fun hclosed hgoing => ?_, fun hne => ?_⟩
  · rw [hthawed, Bool.or_eq_false_iff] at hclosed
    exact (h.still hclosed.1 (hgave hgoing)).step h.base (hgave hgoing) h.carrying h.exclusive
      hclosed.2 hnext
  · rw [hthawed, Bool.or_eq_false_iff]
    rcases hcommitted with hsame | ⟨attempt, domainAvailable, request, rfl, hsent, hcommit⟩
    · rw [hsame] at hne
      refine ⟨h.committed hne, ?_⟩
      cases action with
      | expire locality order =>
        simpa [Option.isSome_iff_ne_none.mpr hne] using hunthawed
      | _ => rfl
    · refine ⟨?_, rfl⟩
      simpa [hsent, hcommit] using hunthawed

theorem Stilled.plan {registry : LocalityId → ObjectRegistry σ} (h : Stilled registry w)
    {action : Action σ} (hnext : w.step action = some next) : next.plan = w.plan := by
  cases w.step_stepped hnext with
  | aside haside => exact (h.base.aside haside hnext).plan
  | freeze domainAvailable hsent hstep => exact (deliverFreeze_aside hsent hstep domainAvailable).plan
  | observe => rw [proceed_eq]; rfl
  | timeout => rw [proceed_eq]
  | _ => rfl

/-- In every run whose freeze does not run out of time, from a start without a trace of
    the migration and with inverse `freeze` and `restore`: once the migration is
    committed, no write has run at the source after the snapshot, and the state the
    destination activates is the one the source held then. -/
theorem committed_writes_kept {actions : List (Action σ)} {final : World σ} (hinit : Initial w)
    (hfaithful : Faithful (fun locality => (w.stores locality).registry) w.plan.objectType)
    (hunthawed : Along World.step (fun w action => unthawed w action = true) w actions)
    (hrun : exec World.step w actions = some final) (hcommitted : final.history.committed ≠ none) :
    final.history.late = false ∧ ∃ source state, final.history.snapshot = some (source, state) ∧
      ∀ installed, final.history.installed = some installed → installed = state := by
  have hinvariant : Stilled (fun locality => (w.stores locality).registry) final ∧
      final.plan = w.plan := by
    refine exec_invariant (fun next : World σ =>
      Stilled (fun locality => (w.stores locality).registry) next ∧ next.plan = w.plan)
      (fun before action after h hstep hnext => ?_) ⟨hinit.stilled, rfl⟩ hunthawed hrun
    refine ⟨h.1.step (h.2 ▸ hfaithful) hstep hnext, (h.1.plan hnext).trans h.2⟩
  obtain ⟨h, -⟩ := hinvariant
  obtain ⟨location, hsome⟩ := Option.ne_none_iff_exists'.mp hcommitted
  have hgave := (h.decided.after location hsome).1
  have hcarried := h.carrying.carried hgave
  obtain ⟨⟨source, state⟩, hsnapshot⟩ :=
    Option.ne_none_iff_exists'.mp (hcarried.committed hcommitted)
  refine ⟨(h.still (h.committed hcommitted) hgave).late, source, state, hsnapshot, ?_⟩
  intro installed hinstalled
  obtain ⟨found, hfound⟩ := hcarried.installed installed hinstalled
  rw [hsnapshot] at hfound
  cases hfound
  rfl

theorem sampleWorld_registry (locality : LocalityId) :
    (sampleWorld.stores locality).registry = sampleRegistry := by
  by_cases heq : locality = sampleSource
  · simp only [sampleWorld, if_pos heq]
    rfl
  · simp only [sampleWorld, if_neg heq]
    rfl

theorem sampleWorld_faithful :
    Faithful (fun locality => (sampleWorld.stores locality).registry) sampleWorld.plan.objectType := by
  constructor
  · intro locality registration freezer hregistration hfreezer state snapshot hok
    rw [sampleWorld_registry] at hregistration
    cases hregistration
    cases hfreezer
    rfl
  · intro source registration freezer hregistration hfreezer destination other restorer hother
      hrestorer state snapshot place restored hok hrestored
    rw [sampleWorld_registry] at hregistration hother
    cases hregistration
    cases hfreezer
    cases hother
    cases hrestorer
    cases hok
    cases hrestored
    rfl

/-- The freeze of `sampleActivate` stays in time, and the destination activates the byte
    of the source. -/
theorem committed_writes_kept_activate :
    ∃ final, exec World.step sampleWorld sampleActivate = some final ∧
      final.history.late = false ∧ final.history.installed = some 7 ∧
      ∃ source, final.history.snapshot = some (source, 7) := by
  have hunthawed : Along World.step (fun w action => unthawed w action = true) sampleWorld
      sampleActivate := by decide
  obtain ⟨hlate, source, state, hsnapshot, hinstalled⟩ :=
    committed_writes_kept sampleWorld_initial sampleWorld_faithful hunthawed rfl nofun
  have hstate : 7 = state := hinstalled 7 rfl
  subst hstate
  exact ⟨_, rfl, hlate, rfl, source, hsnapshot⟩

/-- The freeze runs out of time after the snapshot, a call writes at the source, and the
    migration goes on. -/
def sampleThaw : List (Action UInt8) :=
  [.deliver 0 true, .run 0 false, .finish 0, .observe 0 true true, .tick 11,
    .expire sampleSource [sampleObject],
    .call sampleSource sampleWrite sampleType 1 [] ⟨sampleDestination, 1, u64_one⟩ ⟨0⟩ true,
    .run 0 false, .finish 0, .deliver 1 true, .observe 1 true true, .deliver 2 true,
    .observe 2 true true, .deliver 3 true]

/-- The run of `sampleThaw` loses a write: the source has incremented the byte after the
    snapshot, and the committed migration activates the byte of the snapshot. -/
theorem committed_write_lost :
    ∃ final, Initial sampleWorld ∧
      Faithful (fun locality => (sampleWorld.stores locality).registry)
        sampleWorld.plan.objectType ∧
      exec World.step sampleWorld sampleThaw = some final ∧
      final.history.committed ≠ none ∧ final.history.late = true ∧
      World.stateAt (final.stores sampleSource) sampleObject = some 8 ∧
      final.history.installed = some 7 :=
  ⟨_, sampleWorld_initial, sampleWorld_faithful, rfl, nofun, rfl, rfl, rfl⟩

end Hataori.Migration
