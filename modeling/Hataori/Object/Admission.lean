import Hataori.Lib.Machine
import Hataori.Object.Envelope
import Hataori.Object.Jobs

/-!
# The admission of one locality

The five operations that share the counters of an entry: `admit`, `admit_local`,
`complete` (which is also `rollback`) and `retry_ready`. A `Floor` is a store with the
jobs it has started and not seen completed. The counters always agree with these
jobs; that a writer runs alone needs a `retry_ready` that takes no write behind a read.
-/

namespace Hataori.Object

open Hataori.Runtime Lib.Machine

variable {σ : Type}

/-- A store, the jobs that were started and not completed, and the mailbox jobs the
    last step started. -/
structure Floor (σ : Type) where
  store : Store σ Segments
  running : List ObjectJob
  started : List (ActionJob Segments)

/-- One operation; `complete` names the started job it is called for. -/
inductive Move where
  | admitCall (job : ActionJob Segments) (domainAvailable : Bool) (now : Nat)
  | admitLocal (object : ObjectId) (objectType : ObjectTypeId) (epoch : Nat) (read : Bool)
  | complete (index : Nat)
  | retry (order : List ObjectId) (max : Nat) (available : Nat → DomainId → Bool)

namespace Floor

/-- One step. -/
def step (floor : Floor σ) : Move → Option (Floor σ)
  | .admitCall job domainAvailable now =>
    let result := floor.store.admitJob job.actionId { job with object := none } domainAvailable now
    match result.1 with
    | .ok (some job) => some ⟨result.2, floor.running ++ job.object.toList, [job]⟩
    | _ => some ⟨result.2, floor.running, []⟩
  | .admitLocal object objectType epoch read =>
    let result := floor.store.admitLocal object objectType epoch read
    match result.1 with
    | .ok job => some ⟨result.2, floor.running ++ [job], []⟩
    | .error _ => some ⟨result.2, floor.running, []⟩
  | .complete index =>
    (floor.running[index]?).map fun job =>
      ⟨floor.store.complete job, floor.running.eraseIdx index, []⟩
  | .retry order max available =>
    let result := floor.store.retryReady order max available
    if order.Perm floor.store.entries.keys then
      some ⟨result.2, floor.running ++ result.1.filterMap (·.object), result.1⟩
    else none

/-- Nothing runs and nothing waits. -/
structure Fresh (floor : Floor σ) : Prop where
  running : floor.running = []
  started : floor.started = []
  entries : ∀ object entry, floor.store.entryAt object = some entry →
    entry.admission = .empty ∧ entry.inFlight = 0 ∧ entry.placementTickets = 0

end Floor

/-! ### The books of an entry -/

/-- A read of the object. -/
def ObjectJob.reads (object : ObjectId) (job : ObjectJob) : Bool :=
  decide (job.object = object) && job.read && !job.placement

/-- A write or a freeze of the object. -/
def ObjectJob.writes (object : ObjectId) (job : ObjectJob) : Bool :=
  decide (job.object = object) && !job.read && !job.placement

/-- A placement beside the object. -/
def ObjectJob.places (object : ObjectId) (job : ObjectJob) : Bool :=
  decide (job.object = object) && job.placement

namespace Store

variable {ι : Type}

/-- The counters of an entry with these numbers of reads, writes and placements
    running. -/
structure Books (entry : ObjectEntry σ ι) (limit reads writes places : Nat) : Prop where
  readers : entry.admission.readers = reads
  writer : writes = if entry.admission.writer then 1 else 0
  tickets : entry.placementTickets = places
  inFlight : entry.inFlight = reads + writes + places
  mailbox : entry.admission.queue.length ≤ limit

namespace Books

variable {entry : ObjectEntry σ ι} {limit readers writers tickets : Nat}

theorem relabel (h : Books entry limit readers writers tickets) (lifecycle : ObjectLifecycle) :
    Books { entry with lifecycle := lifecycle } limit readers writers tickets :=
  ⟨h.readers, h.writer, h.tickets, h.inFlight, h.mailbox⟩

theorem place (h : Books entry limit readers writers tickets) :
    Books { entry with
      placementTickets := entry.placementTickets + 1
      inFlight := entry.inFlight + 1 } limit readers writers (tickets + 1) := by
  refine ⟨h.readers, h.writer, ?_, ?_, h.mailbox⟩
  · change entry.placementTickets + 1 = _
    rw [h.tickets]
  · change entry.inFlight + 1 = _
    rw [h.inFlight]
    omega

theorem start (h : Books entry limit readers writers tickets) {read : Bool}
    (hcompatible : entry.admission.compatible read = true) :
    Books { entry with
      admission := entry.admission.start read
      inFlight := entry.inFlight + 1 } limit
      (readers + if read then 1 else 0) (writers + if read then 0 else 1) tickets := by
  have hinFlight := h.inFlight
  have hreaders := h.readers
  have hwriter := h.writer
  cases read with
  | true =>
    refine ⟨?_, hwriter, h.tickets, ?_, h.mailbox⟩
    · change entry.admission.readers + 1 = readers + 1
      omega
    · change entry.inFlight + 1 = readers + 1 + writers + tickets
      omega
  | false =>
    simp only [Admission.compatible, Bool.false_eq_true, ↓reduceIte, Bool.and_eq_true,
      Bool.not_eq_true'] at hcompatible
    rw [hcompatible.1] at hwriter
    simp only [Bool.false_eq_true, ↓reduceIte] at hwriter
    refine ⟨hreaders, ?_, h.tickets, ?_, h.mailbox⟩
    · change writers + 1 = 1
      omega
    · change entry.inFlight + 1 = readers + (writers + 1) + tickets
      omega

theorem enqueue (h : Books entry limit readers writers tickets) (job : ActionJob ι)
    (hroom : entry.admission.queue.length < limit) :
    Books { entry with
      admission := { entry.admission with queue := entry.admission.queue ++ [job] } } limit
      readers writers tickets := by
  refine ⟨h.readers, h.writer, h.tickets, h.inFlight, ?_⟩
  change (entry.admission.queue ++ [job]).length ≤ limit
  rw [List.length_append, List.length_singleton]
  omega

/-- A running job completes. -/
theorem release {job : ObjectJob} {object : ObjectId} (hobject : job.object = object)
    (h : Books entry limit (readers + if job.reads object then 1 else 0)
      (writers + if job.writes object then 1 else 0)
      (tickets + if job.places object then 1 else 0)) :
    Books (released entry job) limit readers writers tickets := by
  obtain ⟨hreaders, hwriter, htickets, hinFlight, hmailbox⟩ := h
  simp only [ObjectJob.reads, ObjectJob.writes, ObjectJob.places, hobject, decide_true,
    Bool.true_and] at hreaders hwriter htickets hinFlight
  obtain ⟨_, read, placement⟩ := job
  unfold released
  cases placement with
  | true =>
    simp only [Bool.not_true, Bool.and_false, Bool.false_eq_true, ↓reduceIte, Nat.add_zero]
      at hreaders hwriter htickets hinFlight ⊢
    refine ⟨hreaders, hwriter, ?_, ?_, hmailbox⟩
    · change entry.placementTickets - 1 = tickets
      omega
    · change entry.inFlight - 1 = readers + writers + tickets
      omega
  | false =>
    cases read with
    | true =>
      simp only [Bool.not_true, Bool.not_false, Bool.and_self, Bool.false_and, Bool.false_eq_true,
        ↓reduceIte, Nat.add_zero] at hreaders hwriter htickets hinFlight ⊢
      refine ⟨?_, hwriter, htickets, ?_, hmailbox⟩
      · change entry.admission.readers - 1 = readers
        omega
      · change entry.inFlight - 1 = readers + writers + tickets
        omega
    | false =>
      simp only [Bool.not_false, Bool.and_self, Bool.false_and, Bool.false_eq_true,
        ↓reduceIte, Nat.add_zero] at hreaders hwriter htickets hinFlight ⊢
      refine ⟨hreaders, ?_, htickets, ?_, hmailbox⟩
      · change writers = 0
        split at hwriter <;> omega
      · change entry.inFlight - 1 = readers + writers + tickets
        omega

/-- The jobs `retry_ready` takes from the mailbox start. -/
theorem retried (h : Books entry limit readers writers tickets)
    {started left : List (ActionJob ι)} (hretried : Retried entry started left) :
    Books (startReady entry started left) limit
      (readers + started.countP ActionJob.isRead)
      (writers + started.countP fun job => !job.isRead) tickets := by
  obtain ⟨hreaders, hwriter, htickets, hinFlight, hmailbox⟩ := h
  have hlength : started.length =
      started.countP ActionJob.isRead + started.countP fun job => !job.isRead := by
    rw [List.length_eq_countP_add_countP ActionJob.isRead]
    simp
  refine ⟨?_, ?_, htickets, ?_, ?_⟩
  · change entry.admission.readers + (started.filter ActionJob.isRead).length = _
    rw [hreaders, List.countP_eq_length_filter]
  · change _ = if (entry.admission.writer || started.any fun job => !job.isRead) then 1 else 0
    rcases List.eq_nil_or_concat started with rfl | ⟨front, last, rfl⟩
    · simpa using hwriter
    · have hfree := (hretried.free (by simp)).1
      have hreads : ∀ job ∈ front, (!job.isRead) = false := by
        intro job hjob
        rw [hretried.reads job (by simpa using hjob)]
        rfl
      have hcount : front.countP (fun job => !job.isRead) = 0 := by
        rw [List.countP_eq_zero]
        exact fun job hjob => by simpa using hreads job hjob
      have hany : front.any (fun job => !job.isRead) = false := by
        rw [List.any_eq_false]
        exact fun job hjob => by simpa using hreads job hjob
      rw [hfree] at hwriter ⊢
      simp only [Bool.false_eq_true, ↓reduceIte] at hwriter
      cases hlast : last.isRead with
      | true => simp [hcount, hany, hlast, hwriter]
      | false => simp [hcount, hany, hlast, hwriter]
  · change entry.inFlight + started.length = _
    omega
  · change left.length ≤ limit
    rw [← hretried.split, List.length_append] at hmailbox
    omega

end Books

/-! ### What the operations admit -/

/-- A freeze starts only without placement tickets, and a mailbox takes a job only
    when it has room. -/
theorem admitTo_bounds {store : Store σ ι} {target : Target} (placement read : Bool)
    (job : ActionJob ι) (domainAvailable : Bool) (now : Nat) {entry : ObjectEntry σ ι}
    (hentry : store.entryAt target.object = some entry) :
    (∀ started, (store.admitTo target placement read job domainAvailable now).1 =
        .ok (some started) → placement = false → target.migration.isSome = true →
        entry.placementTickets = 0) ∧
    ((store.admitTo target placement read job domainAvailable now).1 = .ok none →
      entry.admission.queue.length < store.limits.maxMailboxPerObject) := by
  have hlook : store.entries.lookup target.object = some entry := hentry
  unfold admitTo
  simp only [hlook]
  split
  case isTrue => simp
  case isFalse =>
    split
    case isTrue => simp
    case isFalse =>
      split
      case h_1 => simp
      case h_2 lifecycle hlife =>
        cases placement with
        | true =>
          simp only [↓reduceIte, admitPlacement]
          repeat' split
          all_goals simp
        | false =>
          simp only [Bool.false_eq_true, ↓reduceIte, admitMailbox]
          split
          case isTrue havailable =>
            simp only [Bool.and_eq_true, Bool.or_eq_true, beq_iff_eq, Option.isNone_iff_eq_none]
              at havailable
            refine ⟨fun _ _ _ hsome => ?_, by simp⟩
            rcases havailable.1.2 with hnone | htickets
            · rw [hnone] at hsome
              cases hsome
            · exact htickets
          case isFalse =>
            split
            case isTrue => simp
            case isFalse hroom =>
              refine ⟨by simp, fun _ => ?_⟩
              exact Nat.lt_of_not_le hroom

/-- Whether the front of a mailbox starts now. -/
def startable (tickets : Nat) (available : Nat → DomainId → Bool) (queries : Nat)
    (front : ActionJob ι) : Bool :=
  available queries front.domain &&
    !(decide (front.actionId = migrationFreezeActionId) && decide (tickets ≠ 0))

/-- The loop of `retry_ready` comes to a write or a freeze it can start. -/
def reachesWrite (tickets : Nat) (available : Nat → DomainId → Bool) :
    Nat → Nat → List (ActionJob ι) → Bool
  | 0, _, _ => false
  | _ + 1, _, [] => false
  | room + 1, queries, front :: rest =>
    startable tickets available queries front &&
      (!front.isRead || reachesWrite tickets available room (queries + 1) rest)

/-- It does so behind a read it has just started. -/
def overtakes (tickets : Nat) (available : Nat → DomainId → Bool) :
    Nat → Nat → List (ActionJob ι) → Bool
  | room + 1, queries, front :: rest =>
    startable tickets available queries front && front.isRead &&
      reachesWrite tickets available room (queries + 1) rest
  | _, _, _ => false

theorem readyFront_reads {tickets : Nat} {available : Nat → DomainId → Bool} {room queries : Nat}
    {queue : List (ActionJob ι)} (h : reachesWrite tickets available room queries queue = false) :
    ∀ job ∈ (readyFront tickets available room queries queue).1, job.isRead = true := by
  induction queue generalizing room queries with
  | nil => cases room <;> simp [readyFront]
  | cons front rest ih =>
    cases room with
    | zero => simp [readyFront]
    | succ room =>
      unfold readyFront
      split
      case isTrue => simp
      case isFalse hstarts =>
        have hstartable : startable tickets available queries front = true := by
          simp only [not_or, not_not, not_and] at hstarts
          simp only [startable, hstarts.1, Bool.true_and, Bool.not_eq_true', Bool.and_eq_false_iff,
            decide_eq_false_iff_not, not_not]
          exact or_iff_not_imp_left.mpr fun hfreeze => by
            simpa using hstarts.2 (not_not.mp hfreeze)
        rw [reachesWrite, hstartable] at h
        simp only [Bool.true_and, Bool.or_eq_false_iff, Bool.not_eq_false'] at h
        rw [if_pos h.1]
        intro job hjob
        rcases List.mem_cons.mp hjob with rfl | hmore
        · exact h.1
        · exact ih h.2 job hmore

/-- Without overtaking the jobs started are reads only, or one job alone. -/
theorem readyFront_orderly {tickets : Nat} {available : Nat → DomainId → Bool}
    {room queries : Nat} {queue : List (ActionJob ι)}
    (h : overtakes tickets available room queries queue = false) :
    (∀ job ∈ (readyFront tickets available room queries queue).1, job.isRead = true) ∨
      ∃ job, (readyFront tickets available room queries queue).1 = [job] := by
  cases queue with
  | nil => cases room <;> simp [readyFront]
  | cons front rest =>
    cases room with
    | zero => simp [readyFront]
    | succ room =>
      cases hread : front.isRead with
      | false =>
        unfold readyFront
        split
        · simp
        · rw [if_neg (by simp [hread])]
          exact .inr ⟨front, rfl⟩
      | true =>
        refine .inl (readyFront_reads ?_)
        rw [overtakes, hread] at h
        rw [reachesWrite, hread]
        simpa using h

end Store

/-! ### Steps -/

/-- No write overtakes a read: when `retry_ready` comes to an entry on which nothing
    runs, it does not start a write or a freeze behind a read it has just started. -/
def Floor.orderly (floor : Floor σ) : Move → Prop
  | .retry order max available =>
    ∀ before object after, order = before ++ object :: after →
      ∀ entry, floor.store.entryAt object = some entry →
        entry.admission.writer = false → entry.admission.readers = 0 →
        let acc := before.foldl (Store.retryEntry available max) (floor.store, [], 0)
        Store.overtakes entry.placementTickets available (max - acc.2.1.length) acc.2.2
          entry.admission.queue = false
  | _ => True

/-- The counters of every entry agree with the running jobs. -/
structure Floor.Counted (floor : Floor σ) : Prop where
  tagged : Store.QueueTagged floor.store
  books : ∀ object entry, floor.store.entryAt object = some entry →
    Store.Books entry floor.store.limits.maxMailboxPerObject
      (floor.running.countP (ObjectJob.reads object))
      (floor.running.countP (ObjectJob.writes object))
      (floor.running.countP (ObjectJob.places object))
  freezes : ∀ job ∈ floor.started, job.actionId = migrationFreezeActionId →
    ∀ object entry, Store.taggedWith object job = true →
      floor.store.entryAt object = some entry → entry.placementTickets = 0

/-- A writer has the entry for itself. -/
def Floor.Exclusive (floor : Floor σ) : Prop :=
  ∀ object entry, floor.store.entryAt object = some entry → entry.admission.writer = true →
    entry.admission.readers = 0

theorem Floor.Fresh.counted {floor : Floor σ} (h : floor.Fresh) : floor.Counted where
  tagged := by
    intro object entry hentry job hjob
    rw [(h.entries object entry hentry).1] at hjob
    cases hjob
  books := by
    intro object entry hentry
    obtain ⟨hadmission, hinFlight, htickets⟩ := h.entries object entry hentry
    rw [h.running]
    refine ⟨by rw [hadmission]; rfl, by rw [hadmission]; rfl, htickets, hinFlight, ?_⟩
    rw [hadmission]
    exact Nat.zero_le _
  freezes := by
    rw [h.started]
    simp

theorem Floor.Fresh.exclusive {floor : Floor σ} (h : floor.Fresh) : floor.Exclusive := by
  intro object entry hentry _
  rw [(h.entries object entry hentry).1]
  rfl

namespace Floor

variable {floor next : Floor σ}

theorem countP_snoc (running : List ObjectJob) (p : ObjectJob → Bool) (job : ObjectJob) :
    (running ++ [job]).countP p = running.countP p + if p job then 1 else 0 := by
  rw [List.countP_append, List.countP_singleton]

/-- A job starts on one object. -/
theorem Counted.start (h : floor.Counted) {object : ObjectId} {job : ObjectJob}
    {store : Store σ Segments} {started : List (ActionJob Segments)} (hjob : job.object = object)
    (htouch : Store.Touches object floor.store store) (htagged : Store.QueueTagged store)
    (hbooks : ∀ entry, store.entryAt object = some entry →
      Store.Books entry floor.store.limits.maxMailboxPerObject
        (floor.running.countP (ObjectJob.reads object) + if job.reads object then 1 else 0)
        (floor.running.countP (ObjectJob.writes object) + if job.writes object then 1 else 0)
        (floor.running.countP (ObjectJob.places object) + if job.places object then 1 else 0))
    (hfreezes : ∀ job ∈ started, job.actionId = migrationFreezeActionId →
      ∀ other entry, Store.taggedWith other job = true →
        store.entryAt other = some entry → entry.placementTickets = 0) :
    Counted ⟨store, floor.running ++ [job], started⟩ where
  tagged := htagged
  books := by
    intro other entry hentry
    simp only [countP_snoc, htouch.limits]
    by_cases heq : other = object
    · subst heq
      exact hbooks entry hentry
    · have hother : job.object ≠ other := fun hsame => heq (hsame.symm.trans hjob)
      simp only [ObjectJob.reads, ObjectJob.writes, ObjectJob.places, hother, decide_false,
        Bool.false_and, Bool.false_eq_true, ↓reduceIte, Nat.add_zero]
      exact h.books other entry (by rw [← htouch.others other heq]; exact hentry)
  freezes := hfreezes

/-- Nothing starts; the entry of one object keeps its books. -/
theorem Counted.keep (h : floor.Counted) {object : ObjectId} {store : Store σ Segments}
    (htouch : Store.Touches object floor.store store) (htagged : Store.QueueTagged store)
    (hbooks : ∀ entry, store.entryAt object = some entry →
      Store.Books entry floor.store.limits.maxMailboxPerObject
        (floor.running.countP (ObjectJob.reads object))
        (floor.running.countP (ObjectJob.writes object))
        (floor.running.countP (ObjectJob.places object))) :
    Counted ⟨store, floor.running, []⟩ where
  tagged := htagged
  books := by
    intro other entry hentry
    rw [htouch.limits]
    by_cases heq : other = object
    · subst heq
      exact hbooks entry hentry
    · exact h.books other entry (by rw [← htouch.others other heq]; exact hentry)
  freezes := by simp

/-- `admit` on a decoded input. -/
theorem Counted.admitTo (h : floor.Counted) (target : Store.Target) (placement read : Bool)
    (job : ActionJob Segments) (domainAvailable : Bool) (now : Nat)
    (hfreeze : job.actionId = migrationFreezeActionId → target.migration.isSome = true) :
    let result := floor.store.admitTo target placement read job domainAvailable now
    (∀ started, result.1 = .ok (some started) →
      Counted ⟨result.2, floor.running ++ started.object.toList, [started]⟩) ∧
    ((∀ started, result.1 ≠ .ok (some started)) → Counted ⟨result.2, floor.running, []⟩) := by
  intro result
  have htouch : Store.Touches target.object floor.store result.2 :=
    floor.store.admitTo_touches target placement read job domainAvailable now
  have htagged : Store.QueueTagged result.2 :=
    h.tagged.admitTo target placement read job domainAvailable now
  have hcases := floor.store.admitTo_cases target placement read job domainAvailable now
  simp only at hcases
  rcases hcases with ⟨error, hsame⟩ | ⟨entry, lifecycle, hentry, -, -, hlife, -, hends⟩
  · have hresult : result = (.error error, floor.store) := hsame
    rw [hresult] at htouch htagged ⊢
    refine ⟨fun started hok => (by cases hok), fun _ => ?_⟩
    exact h.keep (.refl target.object _) htagged fun entry hentry => h.books _ entry hentry
  · have hbooks := h.books _ entry hentry
    obtain ⟨htickets, hroom⟩ :=
      Store.admitTo_bounds placement read job domainAvailable now hentry
    rcases hends with ⟨error, herror, hset⟩ | ⟨rfl, rfl, hok, hset⟩ |
      ⟨rfl, -, hcompatible, hok, hset⟩ | ⟨-, hqueued, hset⟩
    · have hresult : result.1 = .error error := herror
      refine ⟨fun started hok => (by rw [hresult] at hok; cases hok), fun _ => ?_⟩
      refine h.keep htouch htagged fun after hafter => ?_
      cases hset.symm.trans hafter
      exact hbooks.relabel lifecycle
    · have hresult : result.1 = .ok (some _) := hok
      refine ⟨fun started hstarted => ?_, fun hnone => absurd hresult (hnone _)⟩
      cases hresult.symm.trans hstarted
      refine h.start rfl htouch htagged (fun after hafter => ?_) ?_
      · cases hset.symm.trans hafter
        simpa [ObjectJob.reads, ObjectJob.writes, ObjectJob.places] using
          (hbooks.relabel .resident).place
      · intro found hfound hfreezes
        rw [List.mem_singleton] at hfound
        subst hfound
        -- a freeze leaves the object closed, and a placement needs it open
        obtain ⟨migration, hsome⟩ := Option.isSome_iff_exists.mp (hfreeze hfreezes)
        obtain ⟨expires, hclosed⟩ := Store.admitLifecycle_freeze hsome hlife
        cases hclosed
    · have hresult : result.1 = .ok (some _) := hok
      refine ⟨fun started hstarted => ?_, fun hnone => absurd hresult (hnone _)⟩
      cases hresult.symm.trans hstarted
      refine h.start rfl htouch htagged (fun after hafter => ?_) ?_
      · cases hset.symm.trans hafter
        have hstart := (hbooks.relabel lifecycle).start hcompatible
        cases read with
        | true => simpa [ObjectJob.reads, ObjectJob.writes, ObjectJob.places] using hstart
        | false => simpa [ObjectJob.reads, ObjectJob.writes, ObjectJob.places] using hstart
      · intro found hfound hfreezes other after htag hafter
        rw [List.mem_singleton] at hfound
        subst hfound
        have hobject : target.object = other := by simpa [Store.taggedWith] using htag
        subst hobject
        cases hset.symm.trans hafter
        exact htickets _ hok rfl (hfreeze hfreezes)
    · have hresult : result.1 = .ok none := hqueued
      refine ⟨fun started hok => (by rw [hresult] at hok; cases hok), fun _ => ?_⟩
      refine h.keep htouch htagged fun after hafter => ?_
      cases hset.symm.trans hafter
      exact (hbooks.relabel lifecycle).enqueue _ (hroom hqueued)

theorem Counted.complete (h : floor.Counted) {index : Nat} {job : ObjectJob}
    (hjob : floor.running[index]? = some job) :
    Counted ⟨floor.store.complete job, floor.running.eraseIdx index, []⟩ := by
  have htouch := floor.store.complete_touches job
  have hcount : ∀ p : ObjectJob → Bool, floor.running.countP p =
      (floor.running.eraseIdx index).countP p + if p job then 1 else 0 := by
    obtain ⟨hlt, rfl⟩ := List.getElem?_eq_some_iff.mp hjob
    intro p
    rw [← (List.getElem_cons_eraseIdx_perm hlt).countP_eq p, List.countP_cons]
  refine ⟨?_, ?_, by simp⟩
  · exact h.tagged.mono (Store.complete_queueLe _ _)
  · intro object entry hentry
    have hlimits : (floor.store.complete job).limits = floor.store.limits := htouch.limits
    simp only [hlimits]
    by_cases heq : object = job.object
    · subst heq
      rw [floor.store.complete_entry, Option.map_eq_some_iff] at hentry
      obtain ⟨before, hbefore, rfl⟩ := hentry
      have hbooks := h.books _ before hbefore
      rw [hcount, hcount, hcount] at hbooks
      exact hbooks.release rfl
    · rw [htouch.others object heq] at hentry
      have hbooks := h.books object entry hentry
      have hother : ¬ job.object = object := fun hsame => heq hsame.symm
      rw [hcount, hcount, hcount] at hbooks
      simpa [ObjectJob.reads, ObjectJob.writes, ObjectJob.places, hother] using hbooks

/-- The running jobs of one object among those that come out of the mailboxes. -/
theorem countP_started (object : ObjectId) {jobs : List (ActionJob Segments)}
    (htagged : ∀ job ∈ jobs, ∃ other read, job.object = some ⟨other, read, false⟩) :
    (jobs.filterMap (·.object)).countP (ObjectJob.reads object) =
        (jobs.filter (Store.taggedWith object)).countP ActionJob.isRead ∧
    (jobs.filterMap (·.object)).countP (ObjectJob.writes object) =
        (jobs.filter (Store.taggedWith object)).countP (fun job => !job.isRead) ∧
    (jobs.filterMap (·.object)).countP (ObjectJob.places object) = 0 := by
  induction jobs with
  | nil => exact ⟨rfl, rfl, rfl⟩
  | cons job rest ih =>
    obtain ⟨other, read, htag⟩ := htagged job List.mem_cons_self
    obtain ⟨hreads, hwrites, hplaces⟩ := ih fun found hfound =>
      htagged found (List.mem_cons_of_mem _ hfound)
    rw [List.filterMap_cons_some htag, List.countP_cons, List.countP_cons, List.countP_cons, hreads,
      hwrites, hplaces]
    by_cases heq : other = object
    · have hmine : Store.taggedWith object job = true := by simp [Store.taggedWith, htag, heq]
      have hread : job.isRead = read := by simp [ActionJob.isRead, htag]
      rw [List.filter_cons_of_pos hmine, List.countP_cons, List.countP_cons, hread]
      simp [ObjectJob.reads, ObjectJob.writes, ObjectJob.places, heq]
    · have hmine : ¬ Store.taggedWith object job = true := by simp [Store.taggedWith, htag, heq]
      rw [List.filter_cons_of_neg hmine]
      simp [ObjectJob.reads, ObjectJob.writes, ObjectJob.places, heq]

theorem Counted.retry (h : floor.Counted) {order : List ObjectId} (hnodup : order.Nodup)
    (max : Nat) (available : Nat → DomainId → Bool) :
    Counted ⟨(floor.store.retryReady order max available).2,
      floor.running ++ (floor.store.retryReady order max available).1.filterMap (·.object),
      (floor.store.retryReady order max available).1⟩ := by
  obtain ⟨hle, hfrom⟩ := floor.store.retryReady_from order max available
  have hconfig := Store.retryReady_quiet floor.store order max available
  have htags : ∀ job ∈ (floor.store.retryReady order max available).1,
      ∃ other read, job.object = some ⟨other, read, false⟩ := by
    intro job hjob
    obtain ⟨object, entry, hentry, hqueue⟩ := hfrom job hjob
    obtain ⟨read, htag⟩ := h.tagged object entry hentry job hqueue
    exact ⟨object, read, htag⟩
  -- the entry of an object that has one after the step
  have hentryOf : ∀ object after,
      (floor.store.retryReady order max available).2.entryAt object = some after →
      ∃ entry started left, floor.store.entryAt object = some entry ∧
        Store.Retried entry started left ∧ after = Store.startReady entry started left ∧
        (floor.store.retryReady order max available).1.filter (Store.taggedWith object) =
          started := by
    intro object after hafter
    obtain ⟨entry, hentry, -⟩ := hconfig.before_of hafter
    obtain ⟨started, left, hretried, hset, hfilter⟩ :=
      Store.retryReady_entry available max hnodup h.tagged hentry
    exact ⟨entry, started, left, hentry, hretried, Option.some.inj (hafter.symm.trans hset), hfilter⟩
  refine ⟨h.tagged.mono hle, ?_, ?_⟩
  · intro object after hafter
    obtain ⟨entry, started, left, hentry, hretried, rfl, hfilter⟩ := hentryOf object after hafter
    obtain ⟨hreads, hwrites, hplaces⟩ := countP_started object htags
    simp only [List.countP_append, hreads, hwrites, hplaces, hfilter, Nat.add_zero]
    rw [hconfig.limits]
    exact (h.books object entry hentry).retried hretried
  · intro job hjob hfreeze object after htag hafter
    obtain ⟨entry, started, left, -, hretried, rfl, hfilter⟩ := hentryOf object after hafter
    refine hretried.tickets job ?_ hfreeze
    rw [← hfilter]
    exact List.mem_filter.mpr ⟨hjob, htag⟩

/-- A call passes `admit`, is not understood, or is admitted to its object. -/
theorem admitJob_cases (store : Store σ Segments) (action : ActionId) (job : ActionJob Segments)
    (domainAvailable : Bool) (now : Nat) :
    store.admitJob action job domainAvailable now = (.ok (some job), store) ∨
    (∃ error, store.admitJob action job domainAvailable now = (.error error, store)) ∨
    ∃ target placement read, (action = migrationFreezeActionId → target.migration.isSome = true) ∧
      store.admitJob action job domainAvailable now =
        store.admitTo target placement read job domainAvailable now := by
  unfold Store.admitJob
  simp only
  split
  case isTrue => exact .inl rfl
  case isFalse =>
    split
    case h_1 error _ => exact .inr (.inl ⟨error, rfl⟩)
    case h_2 target htarget =>
      refine .inr (.inr ⟨target, _, _, fun hfreeze => ?_, rfl⟩)
      simp only [hfreeze, decide_true, Store.targetOf, ↓reduceIte] at htarget
      split at htarget
      · cases htarget
      · cases htarget
        rfl

/-- A store that is not touched. -/
theorem Counted.same (h : floor.Counted) : Counted ⟨floor.store, floor.running, []⟩ :=
  ⟨h.tagged, h.books, by simp⟩

theorem Counted.admitJob (h : floor.Counted) (job : ActionJob Segments) (hobject : job.object = none)
    (domainAvailable : Bool) (now : Nat) :
    let result := floor.store.admitJob job.actionId job domainAvailable now
    (∀ started, result.1 = .ok (some started) →
      Counted ⟨result.2, floor.running ++ started.object.toList, [started]⟩) ∧
    ((∀ started, result.1 ≠ .ok (some started)) → Counted ⟨result.2, floor.running, []⟩) := by
  intro result
  rcases admitJob_cases floor.store job.actionId job domainAvailable now with hpass |
    ⟨error, herror⟩ | ⟨target, placement, read, hfreeze, hresult⟩
  · have hresult : result = (.ok (some job), floor.store) := hpass
    rw [hresult]
    refine ⟨fun started hok => ?_, fun hnone => absurd rfl (hnone job)⟩
    cases hok
    rw [hobject, Option.toList_none, List.append_nil]
    refine ⟨h.tagged, h.books, ?_⟩
    intro found hfound _ object entry htag
    rw [List.mem_singleton] at hfound
    subst hfound
    simp [Store.taggedWith, hobject] at htag
  · have hresult : result = (.error error, floor.store) := herror
    rw [hresult]
    exact ⟨fun started hok => (by cases hok), fun _ => h.same⟩
  · have hsame : result = floor.store.admitTo target placement read job domainAvailable now := hresult
    rw [hsame]
    exact h.admitTo target placement read job domainAvailable now hfreeze

theorem Counted.admitLocal (h : floor.Counted) (object : ObjectId) (objectType : ObjectTypeId)
    (epoch : Nat) (read : Bool) :
    let result := floor.store.admitLocal object objectType epoch read
    (∀ job, result.1 = .ok job → Counted ⟨result.2, floor.running ++ [job], []⟩) ∧
    (∀ error, result.1 = .error error → Counted ⟨result.2, floor.running, []⟩) := by
  intro result
  have hle : Store.QueueLe result.2 floor.store :=
    Store.admitLocal_queueLe floor.store object objectType epoch read
  rcases floor.store.admitLocal_cases object objectType epoch read with ⟨error, hsame⟩ |
    ⟨entry, hentry, -, -, -, hcompatible, hok, htouch, hset⟩
  · have hresult : result = (.error error, floor.store) := hsame
    rw [hresult]
    exact ⟨fun job hfalse => (by cases hfalse), fun _ _ => h.same⟩
  · have hresult : result.1 = .ok ⟨object, read, false⟩ := hok
    refine ⟨fun job hjob => ?_, fun error herror => (by rw [hresult] at herror; cases herror)⟩
    cases hresult.symm.trans hjob
    refine h.start rfl htouch (h.tagged.mono hle) (fun after hafter => ?_) (by simp)
    cases hset.symm.trans hafter
    have hstart := (h.books object entry hentry).start hcompatible
    cases read with
    | true => simpa [ObjectJob.reads, ObjectJob.writes, ObjectJob.places] using hstart
    | false => simpa [ObjectJob.reads, ObjectJob.writes, ObjectJob.places] using hstart

/-- One operation keeps the books. -/
theorem Counted.step (h : floor.Counted) {move : Move} (hnext : floor.step move = some next) :
    next.Counted := by
  cases move with
  | admitCall job domainAvailable now =>
    obtain ⟨hstarts, hrests⟩ := h.admitJob { job with object := none } rfl domainAvailable now
    simp only [Floor.step] at hnext
    split at hnext
    case h_1 started hok =>
      cases hnext
      exact hstarts started hok
    case h_2 hends =>
      cases hnext
      exact hrests fun started hok => hends started hok
  | admitLocal object objectType epoch read =>
    obtain ⟨hstarts, hrests⟩ := h.admitLocal object objectType epoch read
    simp only [Floor.step] at hnext
    split at hnext
    case h_1 job hok =>
      cases hnext
      exact hstarts job hok
    case h_2 error herror =>
      cases hnext
      exact hrests error herror
  | complete index =>
    obtain ⟨job, hjob, rfl⟩ := Option.map_eq_some_iff.mp hnext
    exact h.complete hjob
  | retry order max available =>
    simp only [Floor.step] at hnext
    split at hnext
    case isTrue hperm =>
      cases hnext
      exact h.retry (hperm.symm.nodup floor.store.entries.nodupKeys) max available
    case isFalse => cases hnext

/-! ### Writers alone -/

theorem alone_start {admission : Admission Segments} {read : Bool}
    (hcompatible : admission.compatible read = true) :
    (admission.start read).writer = true → (admission.start read).readers = 0 := by
  unfold Admission.compatible at hcompatible
  unfold Admission.start
  cases read with
  | true =>
    intro hwriter
    simp only [↓reduceIte, Bool.not_eq_true'] at hcompatible hwriter
    rw [hcompatible] at hwriter
    cases hwriter
  | false =>
    simp only [Bool.false_eq_true, ↓reduceIte, Bool.and_eq_true, beq_iff_eq] at hcompatible
    exact fun _ => hcompatible.2

theorem alone_released {entry : ObjectEntry σ Segments} (job : ObjectJob)
    (h : entry.admission.writer = true → entry.admission.readers = 0) :
    (Store.released entry job).admission.writer = true →
      (Store.released entry job).admission.readers = 0 := by
  unfold Store.released
  split
  · exact h
  · split
    · intro hwriter
      change entry.admission.readers - 1 = 0
      rw [h hwriter]
    · intro hwriter
      cases hwriter

/-- Jobs that do not overtake each other start on an entry nothing runs on. -/
theorem alone_startReady {entry : ObjectEntry σ Segments} {started left : List (ActionJob Segments)}
    (hfree : entry.admission.writer = false ∧ entry.admission.readers = 0)
    (horderly : (∀ job ∈ started, job.isRead = true) ∨ ∃ job, started = [job]) :
    (Store.startReady entry started left).admission.writer = true →
      (Store.startReady entry started left).admission.readers = 0 := by
  intro hwriter
  change (entry.admission.writer || started.any fun job => !job.isRead) = true at hwriter
  change entry.admission.readers + (started.filter ActionJob.isRead).length = 0
  rw [hfree.1, Bool.false_or, List.any_eq_true] at hwriter
  obtain ⟨writer, hmem, hwrites⟩ := hwriter
  rw [hfree.2]
  rcases horderly with hreads | ⟨job, rfl⟩
  · rw [hreads writer hmem] at hwrites
    cases hwrites
  · rw [List.mem_singleton] at hmem
    subst hmem
    have hwrite : writer.isRead = false := by simpa using hwrites
    simp [hwrite]

/-- `retry_ready` leaves an entry alone, or takes the front of its mailbox when nothing
    runs on it. -/
theorem retryEntry_front (available : Nat → DomainId → Bool) (max : Nat)
    (acc : Store σ Segments × List (ActionJob Segments) × Nat) {object : ObjectId}
    {after : ObjectEntry σ Segments}
    (h : (Store.retryEntry available max acc object).1.entryAt object = some after) :
    acc.1.entryAt object = some after ∨
    ∃ entry, acc.1.entryAt object = some entry ∧
      (entry.admission.writer = false ∧ entry.admission.readers = 0) ∧
      let front := Store.readyFront entry.placementTickets available (max - acc.2.1.length) acc.2.2
        entry.admission.queue
      after = Store.startReady entry front.1 front.2.1 := by
  unfold Store.retryEntry at h
  split at h
  case h_1 => exact .inl h
  case h_2 entry hlook =>
    split at h
    case isTrue => exact .inl h
    case isFalse =>
      split at h
      case isTrue => exact .inl h
      case isFalse hbusy =>
        rw [Store.entryAt_setEntry_self] at h
        exact .inr ⟨entry, hlook, by simpa using hbusy, (Option.some.inj h).symm⟩

/-- The turn of one entry in an orderly `retry_ready`. -/
theorem Exclusive.retry (hcounted : floor.Counted) (h : floor.Exclusive) {order : List ObjectId}
    (hnodup : order.Nodup) {max : Nat} {available : Nat → DomainId → Bool}
    (horderly : floor.orderly (.retry order max available)) {object : ObjectId}
    {after : ObjectEntry σ Segments}
    (hafter : (floor.store.retryReady order max available).2.entryAt object = some after) :
    after.admission.writer = true → after.admission.readers = 0 := by
  rcases Store.retryReady_turn available max hnodup hcounted.tagged object with ⟨hentry, -⟩ |
    ⟨before, rest, horder, hacc, -, hentry, -⟩
  · rw [hentry] at hafter
    exact h object after hafter
  · rw [hentry] at hafter
    rcases retryEntry_front available max _ hafter with hsame | ⟨entry, hfound, hfree, rfl⟩
    · rw [hacc] at hsame
      exact h object after hsame
    · rw [hacc] at hfound
      exact alone_startReady hfree (Store.readyFront_orderly
        (horderly before object rest horder entry hfound hfree.1 hfree.2))

/-- One orderly operation keeps writers alone. -/
theorem Exclusive.step (hcounted : floor.Counted) (h : floor.Exclusive) {move : Move}
    (horderly : floor.orderly move) (hnext : floor.step move = some next) : next.Exclusive := by
  cases move with
  | admitCall job domainAvailable now =>
    have hstore : next.store =
        (floor.store.admitJob job.actionId { job with object := none } domainAvailable now).2 := by
      simp only [Floor.step] at hnext
      split at hnext <;> cases hnext <;> rfl
    intro object after hafter
    rw [hstore] at hafter
    rcases admitJob_cases floor.store job.actionId { job with object := none } domainAvailable now
      with hsame | ⟨error, hsame⟩ | ⟨target, placement, read, -, hresult⟩
    · rw [hsame] at hafter
      exact h object after hafter
    · rw [hsame] at hafter
      exact h object after hafter
    · rw [hresult] at hafter
      by_cases heq : object = target.object
      · subst heq
        rcases floor.store.admitTo_cases target placement read { job with object := none }
          domainAvailable now with ⟨error, hsame⟩ | ⟨entry, lifecycle, hentry, -, -, -, -, hends⟩
        · rw [hsame] at hafter
          exact h _ after hafter
        · have hbefore := h _ entry hentry
          rcases hends with ⟨_, -, hset⟩ | ⟨-, -, -, hset⟩ | ⟨-, -, hcompatible, -, hset⟩ |
            ⟨-, -, hset⟩
          · cases hset.symm.trans hafter
            exact hbefore
          · cases hset.symm.trans hafter
            exact hbefore
          · cases hset.symm.trans hafter
            exact alone_start hcompatible
          · cases hset.symm.trans hafter
            exact hbefore
      · rw [(floor.store.admitTo_touches target placement read { job with object := none }
          domainAvailable now).others object heq] at hafter
        exact h object after hafter
  | admitLocal object objectType epoch read =>
    have hstore : next.store = (floor.store.admitLocal object objectType epoch read).2 := by
      simp only [Floor.step] at hnext
      split at hnext <;> cases hnext <;> rfl
    intro other after hafter
    rw [hstore] at hafter
    rcases floor.store.admitLocal_cases object objectType epoch read with ⟨error, hsame⟩ |
      ⟨entry, -, -, -, -, hcompatible, -, htouch, hset⟩
    · rw [hsame] at hafter
      exact h other after hafter
    · by_cases heq : other = object
      · subst heq
        cases hset.symm.trans hafter
        exact alone_start hcompatible
      · rw [htouch.others other heq] at hafter
        exact h other after hafter
  | complete index =>
    obtain ⟨job, -, rfl⟩ := Option.map_eq_some_iff.mp hnext
    intro object after hafter
    by_cases heq : object = job.object
    · subst heq
      rw [floor.store.complete_entry, Option.map_eq_some_iff] at hafter
      obtain ⟨before, hbefore, rfl⟩ := hafter
      exact alone_released job (h _ before hbefore)
    · rw [(floor.store.complete_touches job).others object heq] at hafter
      exact h object after hafter
  | retry order max available =>
    simp only [Floor.step] at hnext
    split at hnext
    case isTrue hperm =>
      cases hnext
      intro object after hafter
      exact h.retry hcounted (hperm.symm.nodup floor.store.entries.nodupKeys) horderly hafter
    case isFalse => cases hnext

theorem countP_nonPlacement (object : ObjectId) (running : List ObjectJob) :
    running.countP (fun job => decide (job.object = object) && !job.placement) =
      running.countP (ObjectJob.reads object) + running.countP (ObjectJob.writes object) := by
  induction running with
  | nil => rfl
  | cons job rest ih =>
    obtain ⟨found, read, placement⟩ := job
    simp only [List.countP_cons, ih, ObjectJob.reads, ObjectJob.writes]
    cases read <;> cases placement <;> simp <;> omega

/-- Every run from a floor on which nothing happened keeps the counters of every entry
    in agreement with the jobs that run, the mailbox within its limit, and starts a
    freeze only without placement tickets. If no `retry_ready` of the run takes a write
    behind a read, a writer also runs alone. -/
theorem admission_exclusive {moves : List Move} {final : Floor σ} (hfresh : floor.Fresh)
    (hrun : exec Floor.step floor moves = some final) {object : ObjectId}
    {entry : ObjectEntry σ Segments} (hentry : final.store.entryAt object = some entry) :
    entry.admission.readers = final.running.countP (ObjectJob.reads object) ∧
    entry.inFlight = entry.admission.readers + (if entry.admission.writer then 1 else 0) +
      entry.placementTickets ∧
    entry.admission.queue.length ≤ final.store.limits.maxMailboxPerObject ∧
    (∀ job ∈ final.started, job.actionId = migrationFreezeActionId →
      Store.taggedWith object job = true → entry.placementTickets = 0) ∧
    (Along Floor.step Floor.orderly floor moves → entry.admission.writer = true →
      entry.admission.readers = 0 ∧
      final.running.countP (fun job => decide (job.object = object) && !job.placement) = 1) := by
  have hcounted : final.Counted :=
    exec_invariant_all Counted (fun _ _ _ h => h.step) hfresh.counted hrun
  obtain ⟨hreaders, hwriter, htickets, hinFlight, hmailbox⟩ := hcounted.books object entry hentry
  refine ⟨hreaders, ?_, hmailbox, fun job hjob hfreeze htag =>
    hcounted.freezes job hjob hfreeze object entry htag hentry, fun halong hwrites => ?_⟩
  · rw [hinFlight, ← hwriter, ← hreaders, ← htickets]
  · have hexclusive : final.Counted ∧ final.Exclusive :=
      exec_invariant (fun floor => floor.Counted ∧ floor.Exclusive)
        (fun _ _ _ h horderly hnext => ⟨h.1.step hnext, h.2.step h.1 horderly hnext⟩)
        ⟨hfresh.counted, hfresh.exclusive⟩ halong hrun
    have halone := hexclusive.2 object entry hentry hwrites
    refine ⟨halone, ?_⟩
    rw [hwrites] at hwriter
    rw [countP_nonPlacement, hwriter, ← hreaders, halone]
    rfl

end Floor

/-! ### A queue of a read and a write -/

namespace Sample

/-- An object of one byte. -/
def objectType : ObjectTypeId := ⟨1, u128_one⟩

/-- Its id. -/
def object : ObjectId := ⟨⟨1, u128_one⟩, 1, u128_one⟩

/-- An action that reads the byte. -/
def read : ActionId := ⟨1, u128_one⟩

/-- An action that increments it. -/
def write : ActionId := ⟨2, u128_two⟩

/-- A locality with the object and nothing else. -/
def store : Store UInt8 Segments where
  runId := ⟨1, u128_one⟩
  localId := ⟨1⟩
  limits :=
    { maxObjects := 4, maxMailboxPerObject := 4, maxResolverEntries := 4, maxRoots := 4,
      maxPlacementTickets := 4, maxMigrations := 4, maxPreparedMigrations := 4, maxForwarders := 4,
      maxRedirects := 4, maxSnapshotBytes := 64, maxSnapshotSegments := 4, forwardingTtl := 10,
      leaseTtl := 10, leaseGrace := 10 }
  registry :=
    { types := ∅
      actions := (AList.singleton read ⟨objectType, fun _ => none, .read fun _ _ => .ok []⟩).insert
        write ⟨objectType, fun _ => none, .write fun _ state => (.ok [], state + 1)⟩
      placements := [] }
  entries := AList.singleton object
    { objectType := objectType
      authority := ⟨1⟩
      location := ⟨⟨1⟩, ⟨0⟩, 1, 1, 1, ObjectLocation.valid_first⟩
      state := some 7
      lifecycle := .resident
      prepared := none
      snapshotBytes := 0
      leases := ∅
      roots := 1
      inFlight := 0
      placementTickets := 0
      admission := .empty }
  nextSlot := 2
  resolver := ∅
  resolverQueue := []
  rootCount := 1
  transferCount := 0
  placementCount := 0
  preparedCount := 0
  pendingTransfers := ∅
  retirements := []

/-- The floor before the first call. -/
def floor : Floor UInt8 := ⟨store, [], []⟩

/-- A call of the object. -/
def call (action : ActionId) (sequence : UInt64) (h : sequence ≠ 0) : Move :=
  .admitCall
    { requester := ⟨2⟩
      request := ⟨⟨2⟩, sequence, h⟩
      actionId := action
      domain := ⟨0⟩
      input := ObjectEnvelope.encode ⟨object, objectType, 1, ⟨2⟩, ⟨0⟩, false⟩ []
      cancelled := 0
      isLocal := false
      object := none } true 0

/-- A write runs while a read and another write wait. -/
def queued : List Move :=
  [call write 1 u64_one, call read 2 u64_two, call write 3 u64_three, .complete 0]

theorem floor_fresh : floor.Fresh := by
  refine ⟨rfl, rfl, ?_⟩
  intro found entry hentry
  by_cases heq : found = object
  · subst heq
    cases hentry
    exact ⟨rfl, rfl, rfl⟩
  · have hnone : floor.store.entryAt found = none := by
      change AList.lookup found store.entries = none
      rw [AList.lookup_eq_none, AList.mem_keys]
      simpa [store, AList.keys_singleton] using heq
    rw [hnone] at hentry
    cases hentry

/-- While the first write runs, the calls behind it wait. -/
theorem admission_exclusive_waiting :
    ∃ final entry, exec Floor.step floor (queued.take 3) = some final ∧
      final.store.entryAt object = some entry ∧ entry.admission.writer = true ∧
      entry.admission.readers = 0 ∧ entry.inFlight = 1 ∧ entry.admission.queue.length = 2 ∧
      final.running.countP (fun job => decide (job.object = object) && !job.placement) = 1 := by
  have hbooks := Floor.admission_exclusive floor_fresh
    (show exec Floor.step floor (queued.take 3) = some _ from rfl)
    (show Store.entryAt _ object = some _ from rfl)
  have horderly : Along Floor.step Floor.orderly floor (queued.take 3) :=
    ⟨trivial, fun _ _ => ⟨trivial, fun _ _ => ⟨trivial, fun _ _ => trivial⟩⟩⟩
  obtain ⟨hreaders, halone⟩ := hbooks.2.2.2.2 horderly rfl
  exact ⟨_, _, rfl, rfl, rfl, hreaders, hbooks.2.1, rfl, halone⟩

/-- With room for two jobs `retry_ready` starts the waiting write beside the read. -/
theorem admission_not_exclusive :
    ∃ final entry, floor.Fresh ∧
      exec Floor.step floor (queued ++ [.retry [object] 2 fun _ _ => true]) = some final ∧
      final.store.entryAt object = some entry ∧
      entry.admission.writer = true ∧ entry.admission.readers = 1 ∧
      final.running.countP (fun job => decide (job.object = object) && !job.placement) = 2 :=
  ⟨_, _, floor_fresh, rfl, rfl, rfl, rfl, rfl⟩

end Sample

end Hataori.Object
