import Hataori.Migration.Protocol
import Hataori.Object.Frames

/-!
# Freezes in the mailboxes

A freeze that waits in a mailbox or has started is recorded as such in the table of
calls, and each call is in one place only.
-/

namespace Hataori.Migration

open Hataori.Runtime Hataori.Object Hataori.Object.Store

variable {σ : Type}

/-- The call a job belongs to. -/
def Input.attempt? : Input → Option Nat
  | .freeze attempt _ => some attempt
  | .call _ _ _ => none

/-- The call a started job belongs to. -/
def Work.attempt? : Work σ → Option Nat
  | .freeze attempt _ => some attempt
  | _ => none

/-- The calls of a list of jobs. -/
def attemptsOf (jobs : List (ActionJob Input)) : List Nat :=
  jobs.filterMap fun job => job.input.attempt?

/-- The calls of the started jobs. -/
def startedAttempts (running : List (Running σ)) : List Nat :=
  running.filterMap fun running => running.work.attempt?

theorem mem_attemptsOf {jobs : List (ActionJob Input)} {attempt : Nat} :
    attempt ∈ attemptsOf jobs ↔ ∃ job ∈ jobs, ∃ packet, job.input = .freeze attempt packet := by
  simp only [attemptsOf, List.mem_filterMap]
  constructor
  · rintro ⟨job, hmem, hattempt⟩
    cases hinput : job.input with
    | call objectType epoch payload =>
      rw [hinput] at hattempt
      cases hattempt
    | freeze found packet =>
      rw [hinput] at hattempt
      cases hattempt
      exact ⟨job, hmem, packet, hinput⟩
  · rintro ⟨job, hmem, packet, hinput⟩
    exact ⟨job, hmem, by rw [hinput]; rfl⟩

theorem attemptsOf_cons (job : ActionJob Input) (rest : List (ActionJob Input)) :
    attemptsOf (job :: rest) =
      match job.input.attempt? with
      | none => attemptsOf rest
      | some attempt => attempt :: attemptsOf rest := by
  unfold attemptsOf
  rw [List.filterMap_cons]
  cases job.input.attempt? <;> rfl

/-- Jobs that are no freezes do not matter. -/
theorem attemptsOf_filter {jobs : List (ActionJob Input)} {p : ActionJob Input → Bool}
    (h : ∀ job ∈ jobs, ∀ attempt packet, job.input = .freeze attempt packet → p job = true) :
    attemptsOf (jobs.filter p) = attemptsOf jobs := by
  induction jobs with
  | nil => rfl
  | cons job rest ih =>
    have hrest := ih fun found hfound => h found (List.mem_cons_of_mem _ hfound)
    cases hinput : job.input with
    | call objectType epoch payload =>
      have hnone : job.input.attempt? = none := by rw [hinput]; rfl
      rw [List.filter_cons]
      split <;> simp only [attemptsOf_cons, hnone, hrest]
    | freeze attempt packet =>
      rw [List.filter_cons, if_pos (h job List.mem_cons_self attempt packet hinput)]
      simp only [attemptsOf_cons, hrest]

theorem mem_startedAttempts {running : List (Running σ)} {attempt : Nat} :
    attempt ∈ startedAttempts running ↔
      ∃ started ∈ running, ∃ packet, started.work = .freeze attempt packet := by
  simp only [startedAttempts, List.mem_filterMap]
  constructor
  · rintro ⟨started, hmem, hattempt⟩
    cases hwork : started.work with
    | action actionId objectType epoch payload =>
      rw [hwork] at hattempt
      cases hattempt
    | direct update =>
      rw [hwork] at hattempt
      cases hattempt
    | freeze found packet =>
      rw [hwork] at hattempt
      cases hattempt
      exact ⟨started, hmem, packet, hwork⟩
  · rintro ⟨started, hmem, packet, hwork⟩
    exact ⟨started, hmem, by rw [hwork]; rfl⟩

theorem startedAttempts_set {running : List (Running σ)} {index : Nat} {before after : Running σ}
    (hbefore : running[index]? = some before) (hwork : after.work = before.work) :
    startedAttempts (running.set index after) = startedAttempts running := by
  induction running generalizing index with
  | nil => rfl
  | cons first rest ih =>
    cases index with
    | zero =>
      simp only [List.getElem?_cons_zero, Option.some.injEq] at hbefore
      subst hbefore
      simp [startedAttempts, List.filterMap_cons, hwork]
    | succ index =>
      have hfound : rest[index]? = some before := by simpa using hbefore
      have hrest := ih hfound
      unfold startedAttempts at hrest ⊢
      simp only [List.set_cons_succ, List.filterMap_cons, hrest]

/-- The call of a freeze that is taken out is no longer among the started ones. -/
theorem startedAttempts_eraseIdx {running : List (Running σ)} {index attempt : Nat}
    {packet : MigrationPacket} {gone : Running σ} (hgone : running[index]? = some gone)
    (hwork : gone.work = .freeze attempt packet) (honce : (startedAttempts running).Nodup) :
    attempt ∉ startedAttempts (running.eraseIdx index) := by
  induction running generalizing index with
  | nil => simp at hgone
  | cons first rest ih =>
    cases index with
    | zero =>
      simp only [List.getElem?_cons_zero, Option.some.injEq] at hgone
      subst hgone
      simp only [startedAttempts, List.filterMap_cons, hwork, Work.attempt?] at honce
      exact (List.nodup_cons.mp honce).1
    | succ index =>
      have hrest : (startedAttempts rest).Nodup :=
        honce.sublist ((List.sublist_cons_self first rest).filterMap _)
      have hfound : rest[index]? = some gone := by simpa using hgone
      have hnot := ih hfound hrest
      have hmem : attempt ∈ startedAttempts rest :=
        mem_startedAttempts.mpr ⟨gone, List.mem_of_getElem? hfound, packet, hwork⟩
      rw [List.eraseIdx_cons_succ]
      unfold startedAttempts at hnot honce hmem ⊢
      rw [List.filterMap_cons] at honce ⊢
      cases hfirst : first.work.attempt? with
      | none => simpa [hfirst] using hnot
      | some other =>
        simp only [hfirst] at honce ⊢
        intro hin
        rcases List.mem_cons.mp hin with heq | hin
        · exact (List.nodup_cons.mp honce).1 (heq ▸ hmem)
        · exact hnot hin

theorem startFreezes_of_notMem (locality : LocalityId) (calls : Nat → CallState)
    (jobs : List (ActionJob Input)) {attempt : Nat} (h : attempt ∉ attemptsOf jobs) :
    World.startFreezes locality calls jobs attempt = calls attempt := by
  induction jobs generalizing calls with
  | nil => rfl
  | cons job rest ih =>
    unfold World.startFreezes
    have hrest : attempt ∉ attemptsOf rest := fun hmem =>
      h (((List.sublist_cons_self job rest).filterMap _).subset hmem)
    cases hinput : job.input with
    | call objectType epoch payload => exact ih calls hrest
    | freeze other packet =>
      simp only
      have hne : attempt ≠ other := by
        rintro rfl
        exact h (mem_attemptsOf.mpr ⟨job, List.mem_cons_self, packet, hinput⟩)
      rw [ih _ hrest, Function.update_of_ne hne]

theorem startFreezes_of_mem (locality : LocalityId) (calls : Nat → CallState)
    (jobs : List (ActionJob Input)) {attempt : Nat} (h : attempt ∈ attemptsOf jobs) :
    World.startFreezes locality calls jobs attempt = .started locality := by
  induction jobs generalizing calls with
  | nil => cases h
  | cons job rest ih =>
    unfold World.startFreezes
    by_cases hrest : attempt ∈ attemptsOf rest
    · cases job.input with
      | call objectType epoch payload => exact ih calls hrest
      | freeze other packet => exact ih _ hrest
    · obtain ⟨found, hfound, packet, hinput⟩ := mem_attemptsOf.mp h
      rcases List.mem_cons.mp hfound with rfl | htail
      · rw [hinput]
        simp only
        rw [startFreezes_of_notMem _ _ _ hrest, Function.update_self]
      · exact absurd (mem_attemptsOf.mpr ⟨found, htail, packet, hinput⟩) hrest

theorem input_of_toRunning {locality : LocalityId} {job : ActionJob Input} {attempt : Nat}
    {packet : MigrationPacket}
    (h : (World.toRunning locality job : Running σ).work = .freeze attempt packet) :
    job.input = .freeze attempt packet := by
  unfold World.toRunning at h
  cases hinput : job.input with
  | call objectType epoch payload =>
    rw [hinput] at h
    cases h
  | freeze other found =>
    rw [hinput] at h
    cases h
    rfl

/-- Every freeze that waits or has started is known to the table of calls. -/
structure Mailboxes (plan : MigrationPacket) (calls : Nat → CallState)
    (stores : LocalityId → Store σ Input) (running : List (Running σ)) : Prop where
  localId : ∀ locality, (stores locality).localId = locality
  tagged : ∀ locality, QueueTagged (stores locality)
  queued : ∀ locality object entry, (stores locality).entryAt object = some entry →
    ∀ job ∈ entry.admission.queue, ∀ attempt packet, job.input = .freeze attempt packet →
      object = plan.object ∧ calls attempt = .queued locality ∧ Ours plan packet
  queuedOnce : ∀ locality object entry, (stores locality).entryAt object = some entry →
    (attemptsOf entry.admission.queue).Nodup
  started : ∀ running' ∈ running, ∀ attempt packet, running'.work = .freeze attempt packet →
    calls attempt = .started running'.locality ∧ Ours plan packet ∧ running'.reply.OursIn plan
  startedOnce : (startedAttempts running).Nodup

namespace Mailboxes

variable {plan : MigrationPacket} {calls : Nat → CallState}
  {stores : LocalityId → Store σ Input} {running : List (Running σ)}

/-- A store changes without a job entering a mailbox. -/
theorem setStore (h : Mailboxes plan calls stores running) {locality : LocalityId}
    {next : Store σ Input} (hlocal : next.localId = (stores locality).localId)
    (hle : QueueLe next (stores locality)) :
    Mailboxes plan calls (Function.update stores locality next) running where
  localId := by
    intro other
    rcases eq_or_ne other locality with rfl | hne
    · rw [Function.update_self, hlocal, h.localId]
    · rw [Function.update_of_ne hne, h.localId]
  tagged := by
    intro other
    rcases eq_or_ne other locality with rfl | hne
    · rw [Function.update_self]
      exact (h.tagged other).mono hle
    · rw [Function.update_of_ne hne]
      exact h.tagged other
  queued := by
    intro other object entry hentry job hjob attempt packet hinput
    rcases eq_or_ne other locality with rfl | hne
    · rw [Function.update_self] at hentry
      rcases hle object entry hentry with hnil | ⟨before, hbefore, hsub⟩
      · rw [hnil] at hjob
        cases hjob
      · exact h.queued other object before hbefore job (hsub.subset hjob) attempt packet hinput
    · rw [Function.update_of_ne hne] at hentry
      exact h.queued other object entry hentry job hjob attempt packet hinput
  queuedOnce := by
    intro other object entry hentry
    rcases eq_or_ne other locality with rfl | hne
    · rw [Function.update_self] at hentry
      rcases hle object entry hentry with hnil | ⟨before, hbefore, hsub⟩
      · rw [hnil]
        exact List.nodup_nil
      · exact (h.queuedOnce other object before hbefore).sublist (hsub.filterMap _)
    · rw [Function.update_of_ne hne] at hentry
      exact h.queuedOnce other object entry hentry
  started := h.started
  startedOnce := h.startedOnce

/-- A call that is neither waiting nor started moves. -/
theorem setCall (h : Mailboxes plan calls stores running) {attempt : Nat} (state : CallState)
    (hqueued : ∀ locality, calls attempt ≠ .queued locality)
    (hstarted : ∀ locality, calls attempt ≠ .started locality) :
    Mailboxes plan (Function.update calls attempt state) stores running where
  localId := h.localId
  tagged := h.tagged
  queued := by
    intro locality object entry hentry job hjob other packet hinput
    obtain ⟨hobject, hcall, hours⟩ := h.queued locality object entry hentry job hjob other packet
      hinput
    have hne : other ≠ attempt := fun heq => hqueued locality (heq ▸ hcall)
    exact ⟨hobject, by rw [Function.update_of_ne hne, hcall], hours⟩
  queuedOnce := h.queuedOnce
  started := by
    intro running' hmem other packet hwork
    obtain ⟨hcall, hours⟩ := h.started running' hmem other packet hwork
    have hne : other ≠ attempt := fun heq => hstarted _ (heq ▸ hcall)
    exact ⟨by rw [Function.update_of_ne hne, hcall], hours⟩
  startedOnce := h.startedOnce

/-- A started job changes without changing what it executes. -/
theorem setRunning (h : Mailboxes plan calls stores running) {index : Nat}
    {before after : Running σ} (hbefore : running[index]? = some before)
    (hwork : after.work = before.work) (hlocality : after.locality = before.locality)
    (hreply : after.work.attempt?.isSome → after.reply.OursIn plan) :
    Mailboxes plan calls stores (running.set index after) where
  localId := h.localId
  tagged := h.tagged
  queued := h.queued
  queuedOnce := h.queuedOnce
  started := by
    intro running' hmem attempt packet hfreeze
    rcases List.mem_or_eq_of_mem_set hmem with hold | rfl
    · exact h.started running' hold attempt packet hfreeze
    · obtain ⟨hcall, hours, -⟩ := h.started before (List.mem_of_getElem? hbefore) attempt packet
        (hwork ▸ hfreeze)
      exact ⟨hlocality ▸ hcall, hours, hreply (by rw [hfreeze]; rfl)⟩
  startedOnce := by
    rw [startedAttempts_set hbefore hwork]
    exact h.startedOnce

/-- A job that is no freeze starts. -/
theorem append (h : Mailboxes plan calls stores running) {new : Running σ}
    (hwork : new.work.attempt? = none) :
    Mailboxes plan calls stores (running ++ [new]) where
  localId := h.localId
  tagged := h.tagged
  queued := h.queued
  queuedOnce := h.queuedOnce
  started := by
    intro running' hmem attempt packet hfreeze
    rcases List.mem_append.mp hmem with hold | hnew
    · exact h.started running' hold attempt packet hfreeze
    · rw [List.mem_singleton.mp hnew] at hfreeze
      rw [hfreeze] at hwork
      cases hwork
  startedOnce := by
    have hsame : startedAttempts (running ++ [new]) = startedAttempts running := by
      simp [startedAttempts, hwork]
    rw [hsame]
    exact h.startedOnce

/-- A started job that is no freeze leaves. -/
theorem erase (h : Mailboxes plan calls stores running) (index : Nat) :
    Mailboxes plan calls stores (running.eraseIdx index) where
  localId := h.localId
  tagged := h.tagged
  queued := h.queued
  queuedOnce := h.queuedOnce
  started := fun running' hmem => h.started running' (List.mem_of_mem_eraseIdx hmem)
  startedOnce := h.startedOnce.sublist ((List.eraseIdx_sublist _ _).filterMap _)

/-- A started freeze leaves and its call moves. -/
theorem eraseFreeze (h : Mailboxes plan calls stores running) {index attempt : Nat}
    {packet : MigrationPacket} {gone : Running σ} (hgone : running[index]? = some gone)
    (hwork : gone.work = .freeze attempt packet) (state : CallState) :
    Mailboxes plan (Function.update calls attempt state) stores (running.eraseIdx index) where
  localId := h.localId
  tagged := h.tagged
  queued := by
    intro locality object entry hentry job hjob other found hinput
    obtain ⟨hobject, hcall, hours⟩ := h.queued locality object entry hentry job hjob other found
      hinput
    have hstarted := (h.started gone (List.mem_of_getElem? hgone) attempt packet hwork).1
    have hne : other ≠ attempt := by
      rintro rfl
      rw [hcall] at hstarted
      cases hstarted
    exact ⟨hobject, by rw [Function.update_of_ne hne, hcall], hours⟩
  queuedOnce := h.queuedOnce
  started := by
    intro running' hmem other found hfreeze
    obtain ⟨hcall, hours⟩ := h.started running' (List.mem_of_mem_eraseIdx hmem) other found hfreeze
    have hne : other ≠ attempt := by
      rintro rfl
      have hsplit := startedAttempts_eraseIdx hgone hwork h.startedOnce
      exact hsplit (mem_startedAttempts.mpr ⟨running', hmem, found, hfreeze⟩)
    exact ⟨by rw [Function.update_of_ne hne, hcall], hours⟩
  startedOnce := h.startedOnce.sublist ((List.eraseIdx_sublist _ _).filterMap _)

/-- Jobs leave the mailboxes, or arrive, and start at a locality. -/
theorem start (h : Mailboxes plan calls stores running) (locality : LocalityId)
    {jobs : List (ActionJob Input)} (honce : (attemptsOf jobs).Nodup)
    (hours : ∀ job ∈ jobs, ∀ attempt packet, job.input = .freeze attempt packet →
      Ours plan packet)
    (hstarted : ∀ attempt ∈ attemptsOf jobs, ∀ other, calls attempt ≠ .started other)
    (hleft : ∀ other object entry, (stores other).entryAt object = some entry →
      ∀ attempt ∈ attemptsOf jobs, attempt ∉ attemptsOf entry.admission.queue) :
    Mailboxes plan (World.startFreezes locality calls jobs) stores
      (running ++ jobs.map (World.toRunning locality)) where
  localId := h.localId
  tagged := h.tagged
  queued := by
    intro other object entry hentry job hjob attempt packet hinput
    obtain ⟨hobject, hcall, hpacket⟩ := h.queued other object entry hentry job hjob attempt packet
      hinput
    have hnot : attempt ∉ attemptsOf jobs := fun hmem =>
      hleft other object entry hentry attempt hmem
        (mem_attemptsOf.mpr ⟨job, hjob, packet, hinput⟩)
    exact ⟨hobject, by rw [startFreezes_of_notMem _ _ _ hnot, hcall], hpacket⟩
  queuedOnce := h.queuedOnce
  started := by
    intro running' hmem attempt packet hfreeze
    rcases List.mem_append.mp hmem with hold | hnew
    · obtain ⟨hcall, hpacket⟩ := h.started running' hold attempt packet hfreeze
      have hnot : attempt ∉ attemptsOf jobs := fun hin => hstarted attempt hin _ hcall
      exact ⟨by rw [startFreezes_of_notMem _ _ _ hnot, hcall], hpacket⟩
    · obtain ⟨job, hjob, rfl⟩ := List.mem_map.mp hnew
      have hinput : job.input = .freeze attempt packet := input_of_toRunning hfreeze
      refine ⟨startFreezes_of_mem _ _ _ (mem_attemptsOf.mpr ⟨job, hjob, packet, hinput⟩),
        hours job hjob attempt packet hinput, ?_⟩
      intro answer hanswer
      cases hanswer
  startedOnce := by
    have hsplit : startedAttempts (running ++ jobs.map (World.toRunning locality)) =
        startedAttempts running ++ attemptsOf jobs := by
      rw [startedAttempts, List.filterMap_append, List.filterMap_map]
      congr 1
      unfold attemptsOf
      apply List.filterMap_congr
      intro job _
      simp only [Function.comp, World.toRunning]
      cases job.input <;> rfl
    rw [hsplit]
    refine List.nodup_append.mpr ⟨h.startedOnce, honce, ?_⟩
    rintro attempt hold other hnew rfl
    obtain ⟨running', hmem, packet, hwork⟩ := mem_startedAttempts.mp hold
    exact hstarted attempt hnew _ (h.started running' hmem attempt packet hwork).1

/-- A freeze enters the mailbox of its object. -/
theorem enqueue (h : Mailboxes plan calls stores running) {locality : LocalityId}
    {next : Store σ Input} {attempt : Nat} {packet : MigrationPacket} {job : ActionJob Input}
    {before after : ObjectEntry σ Input} (htouch : Touches plan.object (stores locality) next)
    (hbefore : (stores locality).entryAt plan.object = some before)
    (hafter : next.entryAt plan.object = some after)
    (hqueue : after.admission.queue = before.admission.queue ++ [job])
    (hinput : job.input = .freeze attempt packet) (hours : Ours plan packet)
    (htag : ∃ read, job.object = some ⟨plan.object, read, false⟩)
    (hqueued : ∀ other, calls attempt ≠ .queued other)
    (hstarted : ∀ other, calls attempt ≠ .started other) :
    Mailboxes plan (Function.update calls attempt (.queued locality))
      (Function.update stores locality next) running where
  localId := by
    intro other
    rcases eq_or_ne other locality with rfl | hne
    · rw [Function.update_self, htouch.localId, h.localId]
    · rw [Function.update_of_ne hne, h.localId]
  tagged := by
    intro other
    rcases eq_or_ne other locality with rfl | hne
    · rw [Function.update_self]
      intro object entry hentry found hfound
      by_cases heq : object = plan.object
      · subst heq
        rw [hafter] at hentry
        cases hentry
        rw [hqueue] at hfound
        rcases List.mem_append.mp hfound with hold | hnew
        · exact h.tagged other plan.object before hbefore found hold
        · rw [List.mem_singleton.mp hnew]
          exact htag
      · rw [htouch.others object heq] at hentry
        exact h.tagged other object entry hentry found hfound
    · rw [Function.update_of_ne hne]
      exact h.tagged other
  queued := by
    have hmoved : ∀ other found, calls found = .queued other →
        Function.update calls attempt (.queued locality) found = .queued other := by
      intro other found hfound
      have hne : found ≠ attempt := fun heq => hqueued other (heq ▸ hfound)
      rw [Function.update_of_ne hne, hfound]
    intro other object entry hentry found hfound foundAttempt foundPacket hfoundInput
    rcases eq_or_ne other locality with rfl | hne
    · rw [Function.update_self] at hentry
      by_cases heq : object = plan.object
      · subst heq
        rw [hafter] at hentry
        cases hentry
        rw [hqueue] at hfound
        rcases List.mem_append.mp hfound with hold | hnew
        · obtain ⟨hobject, hcall, hpacket⟩ := h.queued other plan.object before hbefore found hold
            foundAttempt foundPacket hfoundInput
          exact ⟨hobject, hmoved other foundAttempt hcall, hpacket⟩
        · rw [List.mem_singleton.mp hnew, hinput] at hfoundInput
          cases hfoundInput
          exact ⟨rfl, Function.update_self _ _ _, hours⟩
      · rw [htouch.others object heq] at hentry
        obtain ⟨hobject, hcall, hpacket⟩ := h.queued other object entry hentry found hfound
          foundAttempt foundPacket hfoundInput
        exact ⟨hobject, hmoved other foundAttempt hcall, hpacket⟩
    · rw [Function.update_of_ne hne] at hentry
      obtain ⟨hobject, hcall, hpacket⟩ := h.queued other object entry hentry found hfound
        foundAttempt foundPacket hfoundInput
      exact ⟨hobject, hmoved other foundAttempt hcall, hpacket⟩
  queuedOnce := by
    intro other object entry hentry
    rcases eq_or_ne other locality with rfl | hne
    · rw [Function.update_self] at hentry
      by_cases heq : object = plan.object
      · subst heq
        rw [hafter] at hentry
        cases hentry
        have hnew : attempt ∉ attemptsOf before.admission.queue := by
          intro hmem
          obtain ⟨old, hold, oldPacket, holdInput⟩ := mem_attemptsOf.mp hmem
          exact hqueued other (h.queued other plan.object before hbefore old hold attempt oldPacket
            holdInput).2.1
        have hsplit : attemptsOf (before.admission.queue ++ [job]) =
            attemptsOf before.admission.queue ++ [attempt] := by
          simp [attemptsOf, hinput, Input.attempt?]
        rw [hqueue, hsplit]
        refine List.nodup_append.mpr ⟨h.queuedOnce other plan.object before hbefore,
          List.nodup_singleton _, ?_⟩
        rintro old hold _ hin rfl
        exact hnew (List.mem_singleton.mp hin ▸ hold)
      · rw [htouch.others object heq] at hentry
        exact h.queuedOnce other object entry hentry
    · rw [Function.update_of_ne hne] at hentry
      exact h.queuedOnce other object entry hentry
  started := by
    intro running' hmem other found hfreeze
    obtain ⟨hcall, hpacket⟩ := h.started running' hmem other found hfreeze
    have hne : other ≠ attempt := fun heq => hstarted _ (heq ▸ hcall)
    exact ⟨by rw [Function.update_of_ne hne, hcall], hpacket⟩
  startedOnce := h.startedOnce

end Mailboxes

end Hataori.Migration
