import Hataori.Migration.Base
import Hataori.Object.Jobs

/-!
# One writer at a time

The jobs running on the object at a locality are known to its entry there, and at
most one of them is exclusive. This holds along every run.
-/

namespace Hataori.Migration

open Hataori.Runtime Hataori.Object Hataori.Object.Store

variable {σ : Type} {w next : World σ}

/-- The job runs on this object at this locality. -/
def Running.on (running : Running σ) (locality : LocalityId) (object : ObjectId) : Bool :=
  decide (running.locality = locality) && decide (running.job.object = object)

/-- It does so exclusively. -/
def Running.writes (running : Running σ) (locality : LocalityId) (object : ObjectId) : Bool :=
  running.on locality object && running.job.exclusive

/-- The running jobs of the object and its entries agree. -/
def Exclusive (object : ObjectId) (stores : LocalityId → Store σ Input)
    (running : List (Running σ)) : Prop :=
  ∀ locality, Accounts (running.countP fun running => running.on locality object)
    (running.countP fun running => running.writes locality object)
    ((stores locality).entryAt object)

theorem countP_eraseIdx {α : Type} {p : α → Bool} {l : List α} {index : Nat} {a : α}
    (h : l[index]? = some a) :
    l.countP p = (l.eraseIdx index).countP p + if p a then 1 else 0 := by
  obtain ⟨hlt, rfl⟩ := List.getElem?_eq_some_iff.mp h
  rw [← (List.getElem_cons_eraseIdx_perm hlt).countP_eq p, List.countP_cons]

theorem countP_writes_le (running : List (Running σ)) (locality : LocalityId)
    (object : ObjectId) :
    (running.countP fun running => running.writes locality object) ≤
      running.countP fun running => running.on locality object := by
  refine List.countP_mono_left fun found _ hwrites => ?_
  unfold Running.writes at hwrites
  simp only [Bool.and_eq_true] at hwrites
  exact hwrites.1

namespace Exclusive

variable {object : ObjectId} {stores : LocalityId → Store σ Input} {running : List (Running σ)}

theorem setStore (h : Exclusive object stores running) {locality : LocalityId}
    {store : Store σ Input} (hkeeps : KeepsJobs object (stores locality) store) :
    Exclusive object (Function.update stores locality store) running := by
  intro other
  by_cases heq : other = locality
  · subst heq
    rw [Function.update_self]
    exact hkeeps _ _ (h other)
  · rw [Function.update_of_ne heq]
    exact h other

/-- A job goes on; where it runs and on what does not change. -/
theorem setRunning (h : Exclusive object stores running) {index : Nat}
    {before after : Running σ} (hbefore : running[index]? = some before)
    (hlocality : after.locality = before.locality) (hjob : after.job = before.job) :
    Exclusive object stores (running.set index after) := by
  have hcount : ∀ p : Running σ → Bool, p after = p before →
      (running.set index after).countP p = running.countP p := by
    intro p hp
    obtain ⟨hlt, rfl⟩ := List.getElem?_eq_some_iff.mp hbefore
    rw [(List.set_perm_cons_eraseIdx hlt after).countP_eq p, List.countP_cons, hp,
      ← List.countP_cons, (List.getElem_cons_eraseIdx_perm hlt).countP_eq p]
  intro locality
  rw [hcount _ (by simp only [Running.on, hlocality, hjob]),
    hcount _ (by simp only [Running.writes, Running.on, hlocality, hjob])]
  exact h locality

/-- A job disappears without completing. -/
theorem erase (h : Exclusive object stores running) (index : Nat) :
    Exclusive object stores (running.eraseIdx index) := by
  intro locality
  exact (h locality).mono ((List.eraseIdx_sublist running index).countP_le)
    ((List.eraseIdx_sublist running index).countP_le) (countP_writes_le _ _ _)

/-- A job completes. -/
theorem finish (h : Exclusive object stores running) {index : Nat} {done : Running σ}
    (hdone : running[index]? = some done) :
    Exclusive object
      (Function.update stores done.locality ((stores done.locality).complete done.job))
      (running.eraseIdx index) := by
  intro locality
  have hle := countP_writes_le (running.eraseIdx index) locality object
  by_cases heq : locality = done.locality
  · subst heq
    rw [Function.update_self]
    by_cases hobject : done.job.object = object
    · subst hobject
      refine complete_accounts ?_ hle
      have haccounts := h done.locality
      rw [countP_eraseIdx hdone, countP_eraseIdx hdone] at haccounts
      simpa [Running.on, Running.writes] using haccounts
    · rw [(complete_touches _ done.job).others object (Ne.symm hobject)]
      exact h.erase index done.locality
  · rw [Function.update_of_ne heq]
    exact h.erase index locality

/-- Jobs start at one locality, as many as its entry gets to know. -/
theorem add (h : Exclusive object stores running) {locality : LocalityId} {store : Store σ Input}
    {new : List (Running σ)} (hnew : ∀ job ∈ new, job.locality = locality)
    (haccounts : ∀ jobs writers, Accounts jobs writers ((stores locality).entryAt object) →
      Accounts (jobs + new.countP fun running => running.on locality object)
        (writers + new.countP fun running => running.writes locality object)
        (store.entryAt object)) :
    Exclusive object (Function.update stores locality store) (running ++ new) := by
  intro other
  rw [List.countP_append, List.countP_append]
  by_cases heq : other = locality
  · subst heq
    rw [Function.update_self]
    exact haccounts _ _ (h other)
  · have hnone : ∀ p : Running σ → Bool, (∀ job, p job = true → job.locality = other) →
        new.countP p = 0 := by
      intro p hp
      rw [List.countP_eq_zero]
      intro job hjob hon
      exact heq ((hp job hon).symm.trans (hnew job hjob))
    rw [Function.update_of_ne heq, hnone _ (by simp +contextual [Running.on]),
      hnone _ (by simp +contextual [Running.on, Running.writes])]
    exact h other

end Exclusive

theorem Initial.exclusive (h : Initial w) : Exclusive w.plan.object w.stores w.running := by
  intro locality
  rw [h.running]
  refine ⟨Nat.le_refl 0, ?_⟩
  cases (w.stores locality).entryAt w.plan.object with
  | none => rfl
  | some entry => exact ⟨Nat.zero_le _, Nat.zero_le _⟩

/-- A migration step leaves the jobs of its object alone. -/
theorem execute_keepsJobs (store : Store σ Input) (step : Step) (packet : MigrationPacket)
    (now : Nat) : KeepsJobs packet.object store (World.execute store step packet now).2 := by
  cases step with
  | freeze => exact .of_eq rfl
  | prepare => exact prepareMigration_keepsJobs store packet now
  | commit => exact commitMigration_keepsJobs store packet now
  | activate => exact activateMigration_keepsJobs store packet
  | rollback => exact rollbackMigration_keepsJobs store packet
  | retire => exact retireMigration_keepsJobs store packet now

/-- One job starts that an admission let through. -/
theorem Exclusive.admitted {stores : LocalityId → Store σ Input} {running : List (Running σ)}
    {target : Target} {placement read : Bool} {job started : ActionJob Input}
    {domainAvailable : Bool} {now : Nat} (h : Exclusive target.object stores running)
    (locality : LocalityId)
    (hstarted : ((stores locality).admitTo target placement read job domainAvailable now).1 =
      .ok (some started)) :
    Exclusive target.object
      (Function.update stores locality
        ((stores locality).admitTo target placement read job domainAvailable now).2)
      (running ++ [started].map (World.toRunning locality)) := by
  obtain ⟨-, -, htag⟩ := admitTo_started hstarted
  refine h.add (by simp [World.toRunning]) fun jobs writers haccounts => ?_
  have hon : ([started].map (World.toRunning (σ := σ) locality)).countP
      (fun running => running.on locality target.object) = 1 := by
    simp [World.toRunning, Running.on, htag]
  have hwrites : ([started].map (World.toRunning (σ := σ) locality)).countP
      (fun running => running.writes locality target.object) =
        if !read && !placement then 1 else 0 := by
    cases read <;> cases placement <;>
      simp [World.toRunning, Running.writes, Running.on, htag, ObjectJob.exclusive]
  rw [hon, hwrites]
  exact admitTo_accounts haccounts hstarted

/-- The running jobs of an object among those started from mailboxes. -/
theorem countP_toRunning {jobs : List (ActionJob Input)} (locality : LocalityId)
    (object : ObjectId)
    (htagged : ∀ job ∈ jobs, ∃ found read, job.object = some ⟨found, read, false⟩) :
    ((jobs.map (World.toRunning (σ := σ) locality)).countP fun running =>
        running.on locality object) = (jobs.filter (taggedWith object)).length ∧
      ((jobs.map (World.toRunning (σ := σ) locality)).countP fun running =>
        running.writes locality object) =
          (jobs.filter (taggedWith object)).countP fun job => !job.isRead := by
  rw [List.countP_map, List.countP_map, ← List.countP_eq_length_filter, List.countP_filter]
  refine ⟨List.countP_congr fun job hjob => ?_, List.countP_congr fun job hjob => ?_⟩
  all_goals
    obtain ⟨found, read, htag⟩ := htagged job hjob
    simp [World.toRunning, Running.writes, Running.on, htag, taggedWith, ObjectJob.exclusive,
      ActionJob.isRead, and_comm]

/-- `retry_ready` starts jobs of the mailboxes. -/
theorem Exclusive.retry (hbase : Base w) (h : Exclusive w.plan.object w.stores w.running)
    (locality : LocalityId) {order : List ObjectId} (hnodup : order.Nodup) (max : Nat)
    (available : Nat → DomainId → Bool) :
    Exclusive w.plan.object
      (Function.update w.stores locality
        ((w.stores locality).retryReady order max available).2)
      (w.running ++ ((w.stores locality).retryReady order max available).1.map
        (World.toRunning locality)) := by
  obtain ⟨-, hfrom⟩ := (w.stores locality).retryReady_from order max available
  have htagged : ∀ job ∈ ((w.stores locality).retryReady order max available).1,
      ∃ found read, job.object = some ⟨found, read, false⟩ := by
    intro job hjob
    obtain ⟨found, entry, hentry, hqueue⟩ := hfrom job hjob
    obtain ⟨read, htag⟩ := hbase.mailboxes.tagged locality found entry hentry job hqueue
    exact ⟨found, read, htag⟩
  refine h.add (by simp +contextual [World.toRunning]) fun jobs writers haccounts => ?_
  obtain ⟨hon, hwrites⟩ := countP_toRunning (σ := σ) locality w.plan.object htagged
  rw [hon, hwrites]
  cases hentry : (w.stores locality).entryAt w.plan.object with
  | some entry =>
    obtain ⟨started, left, hretried, hset, hfilter⟩ := retryReady_entry available max hnodup
      (hbase.mailboxes.tagged locality) hentry
    rw [hfilter, hset]
    rw [hentry] at haccounts
    exact retried_accounts haccounts hretried
  | none =>
    have hgone : ((w.stores locality).retryReady order max available).2.entryAt w.plan.object =
        none := by
      cases hafter : ((w.stores locality).retryReady order max available).2.entryAt
          w.plan.object with
      | none => rfl
      | some after =>
        obtain ⟨before, hbefore, -⟩ := (retryReady_quiet _ _ _ _).before_of hafter
        rw [hentry] at hbefore
        cases hbefore
    have hnil : ((w.stores locality).retryReady order max available).1.filter
        (taggedWith w.plan.object) = [] := by
      rw [List.filter_eq_nil_iff]
      intro job hjob htag
      obtain ⟨found, entry, hfound, hqueue⟩ := hfrom job hjob
      obtain ⟨read, hobject⟩ := hbase.mailboxes.tagged locality found entry hfound job hqueue
      have hsame : found = w.plan.object := by simpa [taggedWith, hobject] using htag
      rw [hsame, hentry] at hfound
      cases hfound
    rw [hnil, hgone]
    rw [hentry] at haccounts
    exact haccounts

/-- A step of the stores or the calls. -/
theorem Exclusive.stepAside (hbase : Base w) (h : Exclusive w.plan.object w.stores w.running)
    {action : Action σ} (haside : action.isAside = true) (hnext : w.step action = some next) :
    Exclusive next.plan.object next.stores next.running := by
  cases action with
  | tick elapsed =>
    cases hnext
    exact h
  | call locality actionId objectType epoch payload request domain domainAvailable =>
    simp only [World.step, World.deliverCall] at hnext
    split at hnext
    · cases hnext
    case h_2 read placement haccess =>
      split at hnext
      case h_1 job hok =>
        cases hnext
        exact @Exclusive.admitted _ _ _ ⟨w.plan.object, _, _, _⟩ _ _ _ _ _ _ h locality hok
      case h_2 hends =>
        cases hnext
        exact h.setStore (admitTo_keepsJobs ⟨_, _, _, _⟩ fun started hok => hends started hok)
  | direct locality objectType epoch update =>
    cases hnext
    unfold World.directCall
    simp only
    split
    · exact h
    case h_2 job hok =>
      refine h.add (by simp) fun jobs writers haccounts => ?_
      obtain ⟨rfl, hstarted⟩ := admitLocal_accounts haccounts hok
      cases update with
      | none => simpa [Running.on, Running.writes, ObjectJob.exclusive] using hstarted
      | some update => simpa [Running.on, Running.writes, ObjectJob.exclusive] using hstarted
  | retry locality order max available =>
    simp only [World.step] at hnext
    split at hnext
    case isTrue hnodup =>
      cases hnext
      exact h.retry hbase locality hnodup max available
    case isFalse => cases hnext
  | run index contended =>
    simp only [World.step] at hnext
    split at hnext
    case h_1 running hrunning =>
      split at hnext
      · cases hnext
      · cases hnext
        unfold World.runJob
        simp only
        split
        · exact (h.setStore (executeAction_keepsJobs _ _ _ _ _ _ _ _)).setRunning hrunning rfl rfl
        case h_2 update hwork =>
          refine (h.setStore ?_).setRunning hrunning rfl rfl
          rcases executeDirect_cases (w.stores running.locality) running.job.object update contended
            with hsame | ⟨write, -, hwrite⟩
          · rw [hsame]
            exact .of_eq rfl
          · rw [hwrite]
            exact writeDirect_keepsJobs _ _ _ _
        case h_3 attempt packet hwork =>
          obtain ⟨-, hours, -⟩ := hbase.mailboxes.started running (List.mem_of_getElem? hrunning)
            attempt packet hwork
          refine (h.setStore ?_).setRunning hrunning rfl rfl
          rw [← hours.object]
          exact freezeMigration_keepsJobs _ _ _ _
    case h_2 => cases hnext
  | finish index =>
    obtain ⟨running, hrunning, rfl⟩ := Option.map_eq_some_iff.mp hnext
    have hfinish := h.finish hrunning
    have hstore : Exclusive w.plan.object
        (Function.update w.stores running.locality
          (World.finishStore (w.stores running.locality) running))
        (w.running.eraseIdx index) := by
      unfold World.finishStore
      split
      · have hcollect := @Exclusive.setStore _ _ _ _ hfinish running.locality _
          (collect_keepsJobs _ running.job.object w.plan.object)
        rw [Function.update_self, Function.update_idem] at hcollect
        exact hcollect
      · exact hfinish
    unfold World.finishJob
    simp only
    split
    · exact hstore
    · exact hstore
  | abandon index =>
    simp only [World.step] at hnext
    split at hnext
    · split at hnext
      · cases hnext
        exact h.erase index
      · cases hnext
        exact h.erase index
    · cases hnext
  | expire locality order =>
    simp only [World.step] at hnext
    split at hnext
    case isTrue hperm =>
      cases hnext
      exact h.setStore (expire_keepsJobs _ hperm _)
    case isFalse => cases hnext
  | _ => cases haside

/-- One step. -/
theorem Exclusive.step (hbase : Base w) (h : Exclusive w.plan.object w.stores w.running)
    {action : Action σ} (hnext : w.step action = some next) :
    Exclusive next.plan.object next.stores next.running := by
  cases w.step_stepped hnext with
  | aside haside => exact h.stepAside hbase haside hnext
  | @freeze attempt request domainAvailable hsent hstep =>
    have hobject := (hbase.protocol.ours attempt request hsent).object
    unfold World.deliverFreeze
    simp only
    rw [← hobject] at h
    split
    case h_1 job hok =>
      change Exclusive w.plan.object _ _
      rw [← hobject]
      exact h.admitted request.place.locality hok
    all_goals
      rename_i hends
      change Exclusive w.plan.object _ _
      rw [← hobject]
      refine h.setStore (admitTo_keepsJobs ⟨_, _, _, _⟩ fun started hok => ?_)
      rw [hends] at hok
      cases hok
  | @execute attempt request domainAvailable hsent hstep =>
    refine h.setStore ?_
    rw [← (hbase.protocol.ours attempt request hsent).object]
    exact execute_keepsJobs _ _ _ _
  | refuse => exact h
  | lose => exact h
  | observe sent rollbackSent hanswered =>
    rw [proceed_eq]
    exact h
  | timeout sent rollbackSent =>
    rw [proceed_eq]
    exact h
  | drop => exact h

end Hataori.Migration
