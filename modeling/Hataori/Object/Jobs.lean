import Hataori.Object.Keeps

/-!
# Started jobs and their entry

An entry counts the jobs that were started on it and remembers whether one of them
is exclusive. `Accounts` compares these with the jobs that really run; every
operation keeps the comparison, so no entry is removed under a running job and no
two exclusive jobs run at once.
-/

namespace Hataori.Object

open Hataori.Runtime Lib.Maps

variable {σ ι : Type}

/-- Whether a job runs alone: it is neither a read nor a placement. -/
def ObjectJob.exclusive (job : ObjectJob) : Bool := !job.read && !job.placement

namespace Store

variable {store next : Store σ ι} {object : ObjectId}

/-- `jobs` running jobs, `writers` of them exclusive, are known to the entry. -/
def Accounts (jobs writers : Nat) (entry : Option (ObjectEntry σ ι)) : Prop :=
  writers ≤ jobs ∧
  match entry with
  | none => jobs = 0
  | some entry => jobs ≤ entry.inFlight ∧ writers ≤ if entry.admission.writer then 1 else 0

theorem Accounts.writers_le_one {jobs writers : Nat} {entry : Option (ObjectEntry σ ι)}
    (h : Accounts jobs writers entry) : writers ≤ 1 := by
  obtain ⟨hle, h⟩ := h
  cases entry with
  | none =>
    simp only at h
    omega
  | some entry =>
    refine h.2.trans ?_
    split <;> omega

theorem Accounts.mono {jobs writers jobs' writers' : Nat} {entry : Option (ObjectEntry σ ι)}
    (h : Accounts jobs writers entry) (hjobs : jobs' ≤ jobs) (hwriters : writers' ≤ writers)
    (hle : writers' ≤ jobs') : Accounts jobs' writers' entry := by
  refine ⟨hle, ?_⟩
  cases entry with
  | none =>
    have hnone : jobs = 0 := h.2
    change jobs' = 0
    omega
  | some entry => exact ⟨hjobs.trans h.2.1, hwriters.trans h.2.2⟩

/-- The operation keeps every account of the object. -/
def KeepsJobs (object : ObjectId) (store next : Store σ ι) : Prop :=
  ∀ jobs writers, Accounts jobs writers (store.entryAt object) →
    Accounts jobs writers (next.entryAt object)

theorem KeepsJobs.of_eq (h : next.entryAt object = store.entryAt object) :
    KeepsJobs object store next := by
  intro jobs writers haccounts
  rw [h]
  exact haccounts

theorem KeepsJobs.trans {middle : Store σ ι} (h₁ : KeepsJobs object store middle)
    (h₂ : KeepsJobs object middle next) : KeepsJobs object store next :=
  fun jobs writers h => h₂ jobs writers (h₁ jobs writers h)

theorem KeepsJobs.of_set {before after : ObjectEntry σ ι}
    (hbefore : store.entryAt object = some before) (hafter : next.entryAt object = some after)
    (hinFlight : after.inFlight = before.inFlight)
    (hwriter : after.admission.writer = before.admission.writer) :
    KeepsJobs object store next := by
  intro jobs writers h
  rw [hbefore] at h
  rw [hafter]
  refine ⟨h.1, ?_⟩
  change jobs ≤ after.inFlight ∧ writers ≤ if after.admission.writer then 1 else 0
  rw [hinFlight, hwriter]
  exact h.2

/-- An idle entry may be removed. -/
theorem KeepsJobs.of_remove {before : ObjectEntry σ ι}
    (hbefore : store.entryAt object = some before) (hinFlight : before.inFlight = 0)
    (hafter : next.entryAt object = none) : KeepsJobs object store next := by
  intro jobs writers h
  rw [hbefore] at h
  rw [hafter]
  have hjobs := h.2.1
  exact ⟨h.1, by change jobs = 0; omega⟩

theorem idle_inFlight {entry : ObjectEntry σ ι} (h : idle entry = true) : entry.inFlight = 0 := by
  unfold idle at h
  simp only [Bool.and_eq_true, beq_iff_eq] at h
  exact h.1.1.1

theorem collect_keepsJobs (store : Store σ ι) (object other : ObjectId) :
    KeepsJobs other store (store.collect object) := by
  by_cases heq : other = object
  · subst heq
    cases hentry : store.entryAt other with
    | none =>
      rw [collect_entry_none hentry]
      exact .of_eq rfl
    | some entry =>
      rcases collect_entry hentry with hkept | ⟨_, _, -, -, -, -, hretiring⟩ | ⟨hcol, hgone⟩
      · exact .of_eq (hkept.trans hentry.symm)
      · exact .of_set hentry hretiring rfl rfl
      · exact .of_remove hentry (idle_inFlight hcol.idle) hgone
  · exact .of_eq ((collect_touches store object).others other heq)

@[simp] theorem expireEntry_inFlight (store : Store σ ι) (entry : ObjectEntry σ ι) (now : Nat) :
    (store.expireEntry entry now).inFlight = entry.inFlight := by
  unfold expireEntry expireLeases expirePrepared expireLifecycle
  repeat' split
  all_goals rfl

theorem expire_keepsJobs (now : Nat) {order : List ObjectId}
    (hperm : order.Perm store.entries.keys) (object : ObjectId) :
    KeepsJobs object store (store.expire order now) := by
  cases hentry : store.entryAt object with
  | none =>
    refine .of_eq ?_
    rw [expire_entry_none now order hentry, hentry]
  | some entry =>
    rcases expire_visits now hperm hentry with hkept | ⟨_, _, -, -, -, -, hretiring⟩ | ⟨hcol, hgone⟩
    · exact .of_set hentry hkept (by simp) (by simp)
    · exact .of_set hentry hretiring (by simp) (by simp)
    · refine .of_remove hentry ?_ hgone
      rw [← expireEntry_inFlight store entry now]
      exact idle_inFlight hcol.idle

theorem executeAction_keepsJobs (store : Store σ ι) (action : ActionId) (object other : ObjectId)
    (objectType : ObjectTypeId) (epoch : Nat) (input : Segments) (contended : Bool) :
    KeepsJobs other store
      (store.executeAction action object objectType epoch input contended).2 := by
  rcases store.executeAction_cases action object objectType epoch input contended with hsame |
    ⟨entry, _, _, _, hentry, -, -, -, hset⟩
  · rw [hsame]
    exact .of_eq rfl
  · rw [hset]
    by_cases heq : other = object
    · subst heq
      exact .of_set hentry (entryAt_setEntry_self _ _ _) rfl rfl
    · exact .of_eq (entryAt_setEntry_ne _ _ heq)

theorem writeDirect_keepsJobs (store : Store σ ι) (object other : ObjectId) (update : σ → σ) :
    KeepsJobs other store (store.writeDirect object update) := by
  rcases store.writeDirect_cases object update with hsame | ⟨entry, _, hentry, -, hset⟩
  · rw [hsame]
    exact .of_eq rfl
  · rw [hset]
    by_cases heq : other = object
    · subst heq
      exact .of_set hentry (entryAt_setEntry_self _ _ _) rfl rfl
    · exact .of_eq (entryAt_setEntry_ne _ _ heq)

theorem freezeMigration_keepsJobs (store : Store σ ι) (packet : MigrationPacket)
    (contended : Bool) (now : Nat) :
    KeepsJobs packet.object store (store.freezeMigration packet contended now).2 := by
  rcases store.freezeMigration_cases packet contended now with ⟨_, hsame⟩ |
    ⟨_, _, _, hentry, -, -, -, ⟨_, -, -, hset⟩ | ⟨_, _, _, -, -, hset⟩ | ⟨_, _, _, -, -, -, hset⟩⟩
  · rw [hsame]
    exact .of_eq rfl
  all_goals
    rw [hset]
    exact .of_set hentry (entryAt_setEntry_self _ _ _) rfl rfl

theorem prepareMigration_keepsJobs (store : Store σ ι) (packet : MigrationPacket) (now : Nat) :
    KeepsJobs packet.object store (store.prepareMigration packet now).2 := by
  rcases (store.prepareMigration_cases packet now).2 with ⟨_, -, hsame⟩ |
    ⟨_, _, _, _, _, -, -, -, -, -, -, -, -, -, -, -, ⟨_, -, -, -, hsame⟩ | ⟨-, hset⟩⟩
  · exact .of_eq hsame
  · exact .of_eq hsame
  · cases hentry : store.entryAt packet.object with
    | some entry =>
      refine .of_set hentry hset ?_ ?_
      · simp [destinationEntry, hentry]
      · simp [destinationEntry, hentry]
    | none =>
      intro jobs writers h
      rw [hentry] at h
      rw [hset]
      have hjobs : jobs = 0 := h.2
      have hwriters := h.1
      exact ⟨h.1, by omega, by omega⟩

theorem commitMigration_keepsJobs (store : Store σ ι) (packet : MigrationPacket) (now : Nat) :
    KeepsJobs packet.object store (store.commitMigration packet now).2 := by
  rcases store.commitMigration_cases packet now with ⟨_, hsame⟩ |
    ⟨_, hentry, -, -, -, -, -, hset⟩
  · rw [hsame]
    exact .of_eq rfl
  · exact .of_set hentry hset rfl rfl

theorem activateMigration_keepsJobs (store : Store σ ι) (packet : MigrationPacket) :
    KeepsJobs packet.object store (store.activateMigration packet).2 := by
  rcases store.activateMigration_cases packet with ⟨_, hsame⟩ |
    ⟨_, _, hentry, -, -, -, ⟨_, -, -, hset⟩ | ⟨-, -, -, hset⟩⟩
  · rw [hsame]
    exact .of_eq rfl
  · exact .of_set hentry hset rfl rfl
  · exact .of_set hentry hset rfl rfl

theorem rollbackMigration_keepsJobs (store : Store σ ι) (packet : MigrationPacket) :
    KeepsJobs packet.object store (store.rollbackMigration packet) := by
  have hset := store.rollbackMigration_entry packet
  cases hentry : store.entryAt packet.object with
  | none =>
    rw [hentry] at hset
    exact .of_eq (hset.trans hentry.symm)
  | some entry =>
    rw [hentry] at hset
    refine .of_set hentry hset ?_ ?_
    all_goals
      unfold rolledBack
      simp only
      repeat' split
      all_goals rfl

theorem retireMigration_keepsJobs (store : Store σ ι) (packet : MigrationPacket) (now : Nat) :
    KeepsJobs packet.object store (store.retireMigration packet now).2 := by
  rcases store.retireMigration_cases packet now with ⟨_, hsame, -⟩ |
    ⟨entry, hentry, -, -, -, hset | ⟨-, -, hset⟩ | ⟨hcol, hgone⟩⟩
  · rw [hsame]
    exact .of_eq rfl
  · exact .of_set hentry hset rfl rfl
  · exact .of_set hentry hset rfl rfl
  · exact .of_remove hentry (idle_inFlight hcol.idle) hgone

/-! ### Jobs come and go -/

/-- A running job completes. -/
theorem complete_accounts {job : ObjectJob} {jobs writers : Nat}
    (h : Accounts (jobs + 1) (writers + if job.exclusive then 1 else 0) (store.entryAt job.object))
    (hle : writers ≤ jobs) : Accounts jobs writers ((store.complete job).entryAt job.object) := by
  rw [complete_entry]
  cases hentry : store.entryAt job.object with
  | none =>
    rw [hentry] at h
    have hfalse : jobs + 1 = 0 := h.2
    omega
  | some entry =>
    rw [hentry] at h
    obtain ⟨hjobs, hwriters⟩ := h.2
    obtain ⟨object, read, placement⟩ := job
    refine ⟨hle, ?_⟩
    cases placement with
    | true =>
      simp only [ObjectJob.exclusive, Bool.not_true, Bool.and_false, Bool.false_eq_true,
        ↓reduceIte] at hwriters
      exact ⟨by change _ ≤ entry.inFlight - 1; omega, hwriters⟩
    | false =>
      cases read with
      | true =>
        simp only [ObjectJob.exclusive, Bool.not_true, Bool.false_and, Bool.false_eq_true,
          ↓reduceIte] at hwriters
        exact ⟨by change _ ≤ entry.inFlight - 1; omega, hwriters⟩
      | false =>
        simp only [ObjectJob.exclusive, Bool.not_false, Bool.and_self, ↓reduceIte] at hwriters
        refine ⟨by change _ ≤ entry.inFlight - 1; omega, ?_⟩
        change writers ≤ 0
        split at hwriters <;> omega

/-- A job of the mailbox starts beside those it is compatible with. -/
theorem start_accounts {entry after : ObjectEntry σ ι} {read : Bool} {jobs writers : Nat}
    (h : Accounts jobs writers (some entry)) (hcompatible : entry.admission.compatible read = true)
    (hinFlight : after.inFlight = entry.inFlight + 1)
    (hwriter : after.admission.writer = (entry.admission.start read).writer) :
    Accounts (jobs + 1) (writers + if read then 0 else 1) (some after) := by
  obtain ⟨hle, hjobs, hwriters⟩ := h
  refine ⟨by split <;> omega, by omega, ?_⟩
  rw [hwriter]
  cases read with
  | true =>
    simp only [Admission.start, ↓reduceIte, Nat.add_zero]
    exact hwriters
  | false =>
    simp only [Admission.compatible, Bool.false_eq_true, ↓reduceIte, Bool.and_eq_true,
      Bool.not_eq_true'] at hcompatible
    rw [hcompatible.1] at hwriters
    simp only [Bool.false_eq_true, ↓reduceIte] at hwriters
    simp [Admission.start]
    omega

/-- An admission that starts nothing. -/
theorem admitTo_keepsJobs (target : Target) {placement read : Bool} {job : ActionJob ι}
    {domainAvailable : Bool} {now : Nat}
    (h : ∀ started,
      (store.admitTo target placement read job domainAvailable now).1 ≠ .ok (some started)) :
    KeepsJobs target.object store
      (store.admitTo target placement read job domainAvailable now).2 := by
  rcases store.admitTo_cases target placement read job domainAvailable now with ⟨error, hsame⟩ |
    ⟨entry, lifecycle, hentry, -, -, -, -, ⟨_, -, hset⟩ | ⟨-, -, hok, -⟩ | ⟨-, -, -, hok, -⟩ |
      ⟨-, -, hset⟩⟩
  · rw [hsame]
    exact .of_eq rfl
  · exact .of_set hentry hset rfl rfl
  · exact absurd hok (h _)
  · exact absurd hok (h _)
  · exact .of_set hentry hset rfl rfl

/-- An admission that starts the job. -/
theorem admitTo_accounts {target : Target} {placement read : Bool} {job started : ActionJob ι}
    {domainAvailable : Bool} {now jobs writers : Nat}
    (h : Accounts jobs writers (store.entryAt target.object))
    (hstarted :
      (store.admitTo target placement read job domainAvailable now).1 = .ok (some started)) :
    Accounts (jobs + 1) (writers + if !read && !placement then 1 else 0)
      ((store.admitTo target placement read job domainAvailable now).2.entryAt
        target.object) := by
  rcases store.admitTo_cases target placement read job domainAvailable now with ⟨error, hsame⟩ |
    ⟨entry, lifecycle, hentry, -, -, -, -, ⟨_, herror, -⟩ | ⟨rfl, -, -, hset⟩ |
      ⟨rfl, -, hcompatible, -, hset⟩ | ⟨-, hqueued, -⟩⟩
  · rw [hsame] at hstarted
    cases hstarted
  · rw [herror] at hstarted
    cases hstarted
  · rw [hentry] at h
    rw [hset]
    obtain ⟨hle, hjobs, hwriters⟩ := h
    simp only [Bool.not_true, Bool.and_false, Bool.false_eq_true, ↓reduceIte, Nat.add_zero]
    exact ⟨by omega, by change _ ≤ entry.inFlight + 1; omega, hwriters⟩
  · rw [hentry] at h
    rw [hset]
    cases read with
    | true => exact start_accounts h hcompatible rfl rfl
    | false => exact start_accounts h hcompatible rfl rfl
  · rw [hqueued] at hstarted
    cases hstarted

/-- A direct call that is admitted. -/
theorem admitLocal_accounts {objectType : ObjectTypeId} {epoch : Nat} {read : Bool}
    {job : ObjectJob} {jobs writers : Nat} (h : Accounts jobs writers (store.entryAt object))
    (hstarted : (store.admitLocal object objectType epoch read).1 = .ok job) :
    job = ⟨object, read, false⟩ ∧
    Accounts (jobs + 1) (writers + if read then 0 else 1)
      ((store.admitLocal object objectType epoch read).2.entryAt object) := by
  rcases store.admitLocal_cases object objectType epoch read with ⟨error, hsame⟩ |
    ⟨entry, hentry, -, -, -, hcompatible, hok, -, hset⟩
  · rw [hsame] at hstarted
    cases hstarted
  · rw [hentry] at h
    rw [hset]
    exact ⟨(Except.ok.inj (hok.symm.trans hstarted)).symm, start_accounts h hcompatible rfl rfl⟩

/-- The jobs of a mailbox that `retry_ready` starts. -/
theorem retried_accounts {entry : ObjectEntry σ ι} {started left : List (ActionJob ι)}
    {jobs writers : Nat} (h : Accounts jobs writers (some entry))
    (hretried : Retried entry started left) :
    Accounts (jobs + started.length) (writers + started.countP fun job => !job.isRead)
      (some (startReady entry started left)) := by
  obtain ⟨hle, hjobs, hwriters⟩ := h
  have hcount : started.countP (fun job => !job.isRead) ≤ started.length := List.countP_le_length
  refine ⟨by omega, by change _ ≤ entry.inFlight + started.length; omega, ?_⟩
  change _ ≤ if (entry.admission.writer || started.any fun job => !job.isRead) then 1 else 0
  rcases List.eq_nil_or_concat started with rfl | ⟨front, last, rfl⟩
  · simpa using hwriters
  · have hfree := (hretried.free (by simp)).1
    have hreads : front.countP (fun job => !job.isRead) = 0 := by
      rw [List.countP_eq_zero]
      intro job hjob
      have hread := hretried.reads job (by simpa using hjob)
      simp [hread]
    have hany : front.any (fun job => !job.isRead) = false := by
      rw [List.any_eq_false]
      intro job hjob
      have hread := hretried.reads job (by simpa using hjob)
      simp [hread]
    rw [hfree] at hwriters ⊢
    simp only [Bool.false_eq_true, ↓reduceIte] at hwriters
    cases hlast : last.isRead with
    | true => simp [hreads, hany, hlast]; omega
    | false => simp [hreads, hany, hlast]; omega

end Store

end Hataori.Object
