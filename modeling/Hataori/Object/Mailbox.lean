import Hataori.Object.Admission

/-!
# The order of a mailbox

The calls, freezes and direct calls of an object start in the order in which they were
accepted: a job that is not started at once goes to the end of the mailbox, only the front of
the mailbox is ever started, and nothing passes a mailbox that is not empty. Placements stand
beside it.
-/

namespace Hataori.Object

open Hataori.Runtime Lib.Machine

variable {σ : Type}

/-- What takes its turn at an object: a job of `admit`, or a direct call of `admit_local`. -/
inductive Entrant where
  | job (job : ActionJob Segments)
  | direct (job : ObjectJob)

/-- The job is a call or a freeze of the object. -/
def serves (object : ObjectId) (job : ActionJob Segments) : Bool :=
  match job.object with
  | some tag => decide (tag.object = object) && !tag.placement
  | none => false

/-- The job as it would stand in a mailbox; a placement and a job without an object never do. -/
def Store.mailboxJob (store : Store σ Segments) (job : ActionJob Segments) :
    Option (ActionJob Segments) :=
  if job.actionId ∈ store.registry.placements then none
  else if (store.registry.actions.lookup job.actionId).isNone &&
      !decide (job.actionId = migrationFreezeActionId) then none
  else match targetOf (decide (job.actionId = migrationFreezeActionId)) job.input with
    | .error _ => none
    | .ok target =>
      some { job with object := some ⟨target.object, store.readsAction job.actionId, false⟩ }

namespace Floor

variable {floor next : Floor σ} {object : ObjectId}

/-- What a step accepts for the object. -/
def accepts (object : ObjectId) (floor : Floor σ) : Move → List Entrant
  | .admitCall job domainAvailable now =>
    match (floor.store.admitJob job.actionId { job with object := none } domainAvailable now).1 with
    | .ok _ => ((floor.store.mailboxJob job).toList.filter (serves object)).map .job
    | .error _ => []
  | .admitLocal found objectType epoch read =>
    match (floor.store.admitLocal found objectType epoch read).1 with
    | .ok job => if job.object = object then [.direct job] else []
    | .error _ => []
  | .complete _ => []
  | .retry _ _ _ => []

/-- What a step starts on the object. -/
def starts (object : ObjectId) (floor : Floor σ) : Move → List Entrant
  | .admitCall job domainAvailable now =>
    match (floor.store.admitJob job.actionId { job with object := none } domainAvailable now).1 with
    | .ok (some job) => ([job].filter (serves object)).map .job
    | _ => []
  | .admitLocal found objectType epoch read =>
    match (floor.store.admitLocal found objectType epoch read).1 with
    | .ok job => if job.object = object then [.direct job] else []
    | .error _ => []
  | .complete _ => []
  | .retry order max available =>
    ((floor.store.retryReady order max available).1.filter (serves object)).map .job

/-- What waits in the mailbox of the object. -/
def waiting (object : ObjectId) (floor : Floor σ) : List Entrant :=
  (((floor.store.entryAt object).map fun entry => entry.admission.queue).getD []).map .job

/-- One step keeps the order: what waited and what is accepted is what starts and what waits. -/
def InTurn (object : ObjectId) (floor next : Floor σ) (accepted started : List Entrant) : Prop :=
  floor.waiting object ++ accepted = started ++ next.waiting object ∧
    (accepted ≠ [] → started ≠ [] → floor.waiting object = [])

theorem waiting_of_entry {entry : ObjectEntry σ Segments}
    (h : floor.store.entryAt object = some entry) :
    floor.waiting object = entry.admission.queue.map .job := by
  rw [waiting, h]
  rfl

theorem waiting_congr (h : next.store.entryAt object = floor.store.entryAt object) :
    next.waiting object = floor.waiting object := by
  rw [waiting, waiting, h]

/-- Nothing comes and nothing starts. -/
theorem InTurn.rest (h : next.waiting object = floor.waiting object) :
    InTurn object floor next [] [] := by
  refine ⟨?_, fun haccepted => absurd rfl haccepted⟩
  rw [List.append_nil, List.nil_append, h]

/-- Something starts that finds nothing waiting. -/
theorem InTurn.direct (hbefore : floor.waiting object = []) (hafter : next.waiting object = [])
    (entrants : List Entrant) : InTurn object floor next entrants entrants := by
  refine ⟨?_, fun _ _ => hbefore⟩
  rw [hbefore, hafter, List.append_nil, List.nil_append]

theorem serves_tagged (object found : ObjectId) (read placement : Bool)
    (job : ActionJob Segments) :
    serves object { job with object := some ⟨found, read, placement⟩ } =
      (decide (found = object) && !placement) := rfl

theorem start_queue (admission : Admission Segments) (read : Bool) :
    (admission.start read).queue = admission.queue := by
  unfold Admission.start
  split <;> rfl

/-- `admit` on a decoded input. -/
theorem inTurn_admitTo {target : Store.Target} {placement read : Bool} {job : ActionJob Segments}
    {domainAvailable : Bool} {now : Nat} {running : List ObjectJob}
    {started : List (ActionJob Segments)} (own : Option (ActionJob Segments))
    (hown : own = if placement then none
      else some { job with object := some ⟨target.object, read, false⟩ }) :
    let result := floor.store.admitTo target placement read job domainAvailable now
    InTurn object floor ⟨result.2, running, started⟩
      (match result.1 with
        | .ok _ => (own.toList.filter (serves object)).map .job
        | .error _ => [])
      (match result.1 with
        | .ok (some job) => ([job].filter (serves object)).map .job
        | _ => []) := by
  intro result
  have htouch : Store.Touches target.object floor.store result.2 :=
    floor.store.admitTo_touches target placement read job domainAvailable now
  have hcases := floor.store.admitTo_cases target placement read job domainAvailable now
  by_cases hobject : target.object = object
  · subst hobject
    rcases hcases with ⟨error, hsame⟩ | ⟨entry, lifecycle, hentry, -, -, -, -, hends⟩
    · have hresult : result = (.error error, floor.store) := hsame
      rw [hresult]
      exact .rest rfl
    · have hbefore := waiting_of_entry hentry
      rcases hends with ⟨error, herror, hset⟩ | ⟨rfl, -, hok, hset⟩ |
        ⟨rfl, hempty, -, hok, hset⟩ | ⟨rfl, hqueued, hset⟩
      · have hresult : result.1 = .error error := herror
        rw [hresult]
        apply InTurn.rest
        rw [hbefore, @waiting_of_entry _ ⟨result.2, running, started⟩ _ _ hset]
      · have hresult : result.1 = .ok (some _) := hok
        rw [hresult, hown]
        simp only [serves_tagged, List.filter_cons, decide_true, Bool.not_true, Bool.and_false]
        apply InTurn.rest
        rw [hbefore, @waiting_of_entry _ ⟨result.2, running, started⟩ _ _ hset]
      · have hresult : result.1 = .ok (some _) := hok
        rw [hresult, hown]
        apply InTurn.direct
        · rw [hbefore, hempty]
          rfl
        · rw [@waiting_of_entry _ ⟨result.2, running, started⟩ _ _ hset]
          change ((entry.admission.start read).queue).map Entrant.job = []
          rw [start_queue, hempty]
          rfl
      · have hresult : result.1 = .ok none := hqueued
        rw [hresult, hown]
        refine ⟨?_, fun _ hnone => absurd rfl hnone⟩
        rw [hbefore, @waiting_of_entry _ ⟨result.2, running, started⟩ _ _ hset]
        simp [serves_tagged]
  · have hsame : waiting object ⟨result.2, running, started⟩ = floor.waiting object :=
      waiting_congr (htouch.others object (Ne.symm hobject))
    have hforeign : (own.toList.filter (serves object)).map Entrant.job = [] := by
      rw [hown]
      split
      · rfl
      · simp [serves_tagged, hobject]
    rw [hforeign]
    rcases hcases with ⟨error, herror⟩ | ⟨-, -, -, -, -, -, -, ⟨error, herror, -⟩ | ⟨-, -, hok, -⟩ |
      ⟨-, -, -, hok, -⟩ | ⟨-, hqueued, -⟩⟩
    · have hresult : result.1 = .error error := congrArg Prod.fst herror
      rw [hresult]
      exact .rest hsame
    · have hresult : result.1 = .error error := herror
      rw [hresult]
      exact .rest hsame
    · have hresult : result.1 = .ok (some _) := hok
      rw [hresult]
      simp only [serves_tagged, List.filter_cons, hobject, decide_false, Bool.false_and]
      exact .rest hsame
    · have hresult : result.1 = .ok (some _) := hok
      rw [hresult]
      simp only [serves_tagged, List.filter_cons, hobject, decide_false, Bool.false_and]
      exact .rest hsame
    · have hresult : result.1 = .ok none := hqueued
      rw [hresult]
      exact .rest hsame

theorem inTurn_admitCall (floor : Floor σ) (object : ObjectId) {job : ActionJob Segments}
    {domainAvailable : Bool} {now : Nat}
    (h : floor.step (.admitCall job domainAvailable now) = some next) :
    InTurn object floor next (accepts object floor (.admitCall job domainAvailable now))
      (starts object floor (.admitCall job domainAvailable now)) := by
  obtain ⟨running, started, hnext⟩ : ∃ running started, next = ⟨(floor.store.admitJob job.actionId
      { job with object := none } domainAvailable now).2, running, started⟩ := by
    simp only [Floor.step] at h
    split at h <;> cases h <;> exact ⟨_, _, rfl⟩
  rw [hnext]
  simp only [accepts, starts]
  unfold Store.admitJob Store.mailboxJob
  dsimp only
  by_cases hplacement : job.actionId ∈ floor.store.registry.placements
  · rw [if_pos hplacement, decide_eq_true hplacement, Bool.not_true, Bool.and_false, Bool.false_and,
      if_neg Bool.false_ne_true]
    split
    · exact .rest rfl
    · exact inTurn_admitTo none rfl
  · rw [if_neg hplacement, decide_eq_false hplacement, Bool.not_false, Bool.and_true]
    split
    · exact .rest rfl
    · generalize Store.targetOf (decide (job.actionId = migrationFreezeActionId)) job.input = read
      cases read with
      | error error => exact .rest rfl
      | ok target => exact inTurn_admitTo (some _) (if_neg Bool.false_ne_true).symm

theorem inTurn_admitLocal (floor : Floor σ) (object : ObjectId) {found : ObjectId}
    {objectType : ObjectTypeId} {epoch : Nat} {read : Bool}
    (h : floor.step (.admitLocal found objectType epoch read) = some next) :
    InTurn object floor next (accepts object floor (.admitLocal found objectType epoch read))
      (starts object floor (.admitLocal found objectType epoch read)) := by
  have hstore : next.store = (floor.store.admitLocal found objectType epoch read).2 := by
    simp only [Floor.step] at h
    split at h <;> cases h <;> rfl
  simp only [accepts, starts]
  rcases floor.store.admitLocal_cases found objectType epoch read with ⟨error, hsame⟩ |
    ⟨entry, hentry, -, -, hempty, -, hok, htouch, hset⟩
  · rw [hsame] at hstore ⊢
    exact .rest (waiting_congr (by rw [hstore]))
  · rw [hok]
    dsimp only
    split
    · next hobject =>
      subst hobject
      apply InTurn.direct
      · rw [waiting_of_entry hentry, hempty]
        rfl
      · rw [← hstore] at hset
        rw [waiting_of_entry hset]
        change ((entry.admission.start read).queue).map Entrant.job = []
        rw [start_queue, hempty]
        rfl
    · next hobject =>
      refine .rest (waiting_congr ?_)
      rw [hstore]
      exact htouch.others object (Ne.symm hobject)

theorem waiting_complete (floor : Floor σ) (object : ObjectId) (job : ObjectJob)
    (running : List ObjectJob) (started : List (ActionJob Segments)) :
    waiting object ⟨floor.store.complete job, running, started⟩ = floor.waiting object := by
  by_cases hobject : object = job.object
  · subst hobject
    rw [waiting, waiting, floor.store.complete_entry, Option.map_map]
    have hqueue : ∀ entry : ObjectEntry σ Segments,
        (Store.released entry job).admission.queue = entry.admission.queue := by
      intro entry
      unfold Store.released
      split_ifs <;> rfl
    simp only [Function.comp_def, hqueue]
  · exact waiting_congr ((floor.store.complete_touches job).others object hobject)

theorem inTurn_retry (h : floor.Counted) (object : ObjectId) {order : List ObjectId} {max : Nat}
    {available : Nat → DomainId → Bool} (hstep : floor.step (.retry order max available) = some next) :
    InTurn object floor next [] (starts object floor (.retry order max available)) := by
  simp only [Floor.step] at hstep
  split_ifs at hstep with hperm
  cases hstep
  have hnodup := hperm.symm.nodup floor.store.entries.nodupKeys
  obtain ⟨-, hfrom⟩ := floor.store.retryReady_from order max available
  have hserves : (floor.store.retryReady order max available).1.filter (serves object) =
      (floor.store.retryReady order max available).1.filter (Store.taggedWith object) := by
    apply List.filter_congr
    intro job hjob
    obtain ⟨found, entry, hentry, hqueue⟩ := hfrom job hjob
    obtain ⟨read, htag⟩ := h.tagged found entry hentry job hqueue
    simp [serves, Store.taggedWith, htag]
  refine ⟨?_, fun haccepted => absurd rfl haccepted⟩
  rw [List.append_nil, starts, hserves]
  cases hentry : floor.store.entryAt object with
  | some entry =>
    obtain ⟨started, left, hretried, hset, hfilter⟩ :=
      Store.retryReady_entry available max hnodup h.tagged hentry
    rw [waiting_of_entry hentry, @waiting_of_entry _ ⟨_, _, _⟩ _ _ hset, hfilter,
      ← hretried.split, List.map_append]
    rfl
  | none =>
    have hquiet := Store.retryReady_quiet floor.store order max available
    have hafter : (floor.store.retryReady order max available).2.entryAt object = none := by
      cases hafter : (floor.store.retryReady order max available).2.entryAt object with
      | none => rfl
      | some after =>
        obtain ⟨before, hbefore, -⟩ := hquiet.before_of hafter
        rw [hentry] at hbefore
        cases hbefore
    have hnothing : (floor.store.retryReady order max available).1.filter
        (Store.taggedWith object) = [] := by
      rw [List.filter_eq_nil_iff]
      intro job hjob htagged
      obtain ⟨found, entry, hfound, hqueue⟩ := hfrom job hjob
      obtain ⟨read, htag⟩ := h.tagged found entry hfound job hqueue
      have hobject : found = object := by simpa [Store.taggedWith, htag] using htagged
      rw [hobject, hentry] at hfound
      cases hfound
    rw [hnothing, waiting, waiting, hentry, hafter]
    rfl

/-- One operation keeps the order. -/
theorem Counted.inTurn (h : floor.Counted) (object : ObjectId) {move : Move}
    (hstep : floor.step move = some next) :
    InTurn object floor next (accepts object floor move) (starts object floor move) := by
  cases move with
  | admitCall job domainAvailable now => exact inTurn_admitCall floor object hstep
  | admitLocal found objectType epoch read => exact inTurn_admitLocal floor object hstep
  | complete index =>
    obtain ⟨job, -, rfl⟩ := Option.map_eq_some_iff.mp hstep
    exact .rest (waiting_complete floor object job _ _)
  | retry order max available => exact inTurn_retry h object hstep

/-- A run keeps the order. -/
theorem Counted.order_kept (h : floor.Counted) (object : ObjectId) {moves : List Move}
    {final : Floor σ} (hrun : exec Floor.step floor moves = some final) :
    floor.waiting object ++ journal Floor.step (accepts object) floor moves =
      journal Floor.step (starts object) floor moves ++ final.waiting object := by
  induction moves generalizing floor with
  | nil =>
    cases hrun
    exact List.append_nil _
  | cons move rest ih =>
    obtain ⟨next, hnext, hrest⟩ := exec_cons_some.mp hrun
    rw [journal_cons _ rest hnext, journal_cons _ rest hnext, ← List.append_assoc,
      (h.inTurn object hnext).1, List.append_assoc, ih (h.step hnext) hrest, List.append_assoc]

/-- What starts as it is accepted finds nothing waiting. -/
theorem Counted.direct (h : floor.Counted) (object : ObjectId) (move : Move)
    (haccepts : accepts object floor move ≠ []) (hstarts : starts object floor move ≠ []) :
    floor.waiting object = [] := by
  have henabled : ∃ next, floor.step move = some next := by
    cases move with
    | admitCall job domainAvailable now =>
      simp only [Floor.step]
      split <;> exact ⟨_, rfl⟩
    | admitLocal found objectType epoch read =>
      simp only [Floor.step]
      split <;> exact ⟨_, rfl⟩
    | complete index => exact absurd rfl haccepts
    | retry order max available => exact absurd rfl haccepts
  obtain ⟨next, hnext⟩ := henabled
  exact (h.inTurn object hnext).2 haccepts hstarts

/-- In every run the calls, freezes and direct calls of an object that were accepted are those
    that have started, in that order, and then those that wait; and what starts as it is
    accepted finds nothing waiting. -/
theorem mailbox_order {moves : List Move} {final : Floor σ} (hfresh : floor.Fresh)
    (hrun : exec Floor.step floor moves = some final) (object : ObjectId) :
    journal Floor.step (accepts object) floor moves =
        journal Floor.step (starts object) floor moves ++ final.waiting object ∧
      Along Floor.step (fun floor move => accepts object floor move ≠ [] →
        starts object floor move ≠ [] → floor.waiting object = []) floor moves := by
  have hnothing : floor.waiting object = [] := by
    cases hentry : floor.store.entryAt object with
    | none =>
      rw [waiting, hentry]
      rfl
    | some entry =>
      rw [waiting_of_entry hentry, (hfresh.entries object entry hentry).1]
      rfl
  constructor
  · have hkept := hfresh.counted.order_kept object hrun
    rw [hnothing] at hkept
    exact hkept
  · exact along_of_invariant Counted (fun _ _ _ h _ hnext => h.step hnext)
      (fun _ move h _ => h.direct object move) hfresh.counted (along_true _ floor moves)

end Floor

/-! ### Two calls behind a write -/

namespace Sample

/-- The calls behind the write start in order, the first of them in the retry. -/
theorem mailbox_order_sample :
    ∃ final, exec Floor.step floor (queued ++ [.retry [object] 1 fun _ _ => true]) = some final ∧
      (Floor.waiting object final).length = 1 ∧
      journal Floor.step (Floor.accepts object) floor (queued ++ [.retry [object] 1 fun _ _ => true]) =
        journal Floor.step (Floor.starts object) floor
          (queued ++ [.retry [object] 1 fun _ _ => true]) ++ Floor.waiting object final := by
  have hrun : exec Floor.step floor (queued ++ [.retry [object] 1 fun _ _ => true]) = some _ := rfl
  exact ⟨_, hrun, rfl, (Floor.mailbox_order floor_fresh hrun object).1⟩

end Sample

end Hataori.Object
