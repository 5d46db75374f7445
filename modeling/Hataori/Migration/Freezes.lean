import Hataori.Migration.Decided

/-!
# Freezes under way

How a freeze gets from its call into a mailbox, from there among the started jobs
and to its answer. As long as the coordinator has not rolled back only one freeze is
under way.
-/

namespace Hataori.Migration

open Hataori.Runtime Hataori.Object Hataori.Object.Store

variable {σ : Type} {w next : World σ}

/-! ### Freezes that may still take a snapshot -/

/-- The call may still lead to a snapshot: the freeze has not started, or its answer
    sends the coordinator to another locality. -/
def CallState.fresh : CallState → Bool
  | .sent request => request.step == .freeze
  | .queued _ => true
  | .answered (.moved _ _) => true
  | _ => false

theorem CallState.live_of_fresh {state : CallState} (h : state.fresh = true) :
    state.live = true := by
  cases state <;> simp_all [CallState.fresh, CallState.live]

/-- How freezes are tagged in mailboxes and among the started jobs; a started freeze
    is not answered with a redirect. -/
structure FreezeTags (object : ObjectId) (stores : LocalityId → Store σ Input)
    (running : List (Running σ)) : Prop where
  queued : ∀ locality entry, (stores locality).entryAt object = some entry →
    ∀ job ∈ entry.admission.queue, ∀ attempt packet, job.input = .freeze attempt packet →
      job.object = some ⟨object, false, false⟩
  started : ∀ running' ∈ running, ∀ attempt packet, running'.work = .freeze attempt packet →
    running'.job = ⟨object, false, false⟩ ∧ ∀ found location, running'.reply ≠ .moved found location

/-- A step that runs no freeze: started freezes were started before or come from a
    call that was fresh. -/
structure Steady (w next : World σ) : Prop where
  snapshot : next.history.snapshot = w.history.snapshot
  jobs : ∀ running ∈ next.running, ∀ attempt packet, running.work = .freeze attempt packet →
    running ∈ w.running ∨ (running.ran = false ∧ running.reply = .failed ∧
      running.job = ⟨w.plan.object, false, false⟩ ∧ (w.calls attempt).fresh = true)
  fresh : ∀ attempt, (next.calls attempt).fresh = true → (w.calls attempt).fresh = true
  answers : ∀ attempt answer, next.calls attempt = .answered (.ok answer) →
    w.calls attempt = .answered (.ok answer) ∨
    ∃ running ∈ w.running, ∃ packet, running.work = .freeze attempt packet ∧
      running.reply = .ok answer
  queued : ∀ locality entry, (next.stores locality).entryAt w.plan.object = some entry →
    ∀ job ∈ entry.admission.queue, ∀ attempt packet, job.input = .freeze attempt packet →
      job.object = some ⟨w.plan.object, false, false⟩ ∨
      ∃ before, (w.stores locality).entryAt w.plan.object = some before ∧
        job ∈ before.admission.queue

/-- A job found in a mailbox was there before an operation that enqueues none. -/
theorem queued_update {object : ObjectId} {stores : LocalityId → Store σ Input}
    {locality other : LocalityId} {store : Store σ Input} (hle : QueueLe store (stores locality))
    {entry : ObjectEntry σ Input}
    (hentry : (Function.update stores locality store other).entryAt object = some entry)
    {job : ActionJob Input} (hjob : job ∈ entry.admission.queue) :
    ∃ before, (stores other).entryAt object = some before ∧ job ∈ before.admission.queue := by
  by_cases heq : other = locality
  · subst heq
    rw [Function.update_self] at hentry
    rcases hle object entry hentry with hnil | ⟨before, hbefore, hsub⟩
    · rw [hnil] at hjob
      cases hjob
    · exact ⟨before, hbefore, hsub.subset hjob⟩
  · rw [Function.update_of_ne heq] at hentry
    exact ⟨entry, hentry, hjob⟩

namespace Steady

/-- A store changes without a job entering a mailbox, and the jobs of this list
    start. -/
theorem start {locality : LocalityId} {store : Store σ Input} {jobs : List (ActionJob Input)}
    (hle : QueueLe store (w.stores locality))
    (hjobs : ∀ job ∈ jobs, ∀ attempt packet, job.input = .freeze attempt packet →
      job.object = some ⟨w.plan.object, false, false⟩ ∧ (w.calls attempt).fresh = true) :
    Steady w ((w.setStore locality store).start locality jobs) where
  snapshot := rfl
  jobs := by
    intro running hrunning attempt packet hwork
    rcases List.mem_append.mp hrunning with hold | hnew
    · exact .inl hold
    · obtain ⟨job, hjob, rfl⟩ := List.mem_map.mp hnew
      obtain ⟨htag, hfresh⟩ := hjobs job hjob attempt packet (input_of_toRunning hwork)
      exact .inr ⟨rfl, rfl, by simp [World.toRunning, htag], hfresh⟩
  fresh := by
    intro attempt hfresh
    by_cases hmem : attempt ∈ attemptsOf jobs
    · rw [show ((w.setStore locality store).start locality jobs).calls attempt = .started locality
        from startFreezes_of_mem locality w.calls jobs hmem] at hfresh
      cases hfresh
    · rw [show ((w.setStore locality store).start locality jobs).calls attempt = w.calls attempt
        from startFreezes_of_notMem locality w.calls jobs hmem] at hfresh
      exact hfresh
  answers := by
    intro attempt answer hanswer
    by_cases hmem : attempt ∈ attemptsOf jobs
    · cases (startFreezes_of_mem locality w.calls jobs hmem).symm.trans hanswer
    · exact .inl ((startFreezes_of_notMem locality w.calls jobs hmem).symm.trans hanswer)
  queued := fun _ _ hentry _ hjob _ _ _ => .inr (queued_update hle hentry hjob)

/-- A store changes without a job entering a mailbox, and started jobs that are no
    freezes come, go on or disappear. -/
theorem quiet {locality : LocalityId} {store : Store σ Input} {running : List (Running σ)}
    {now : Nat} {history : History σ} (hle : QueueLe store (w.stores locality))
    (hsnapshot : history.snapshot = w.history.snapshot)
    (hjobs : ∀ running' ∈ running, ∀ attempt packet, running'.work = .freeze attempt packet →
      running' ∈ w.running) :
    Steady w { w.setStore locality store with running := running, now := now, history := history }
    where
  snapshot := hsnapshot
  jobs := fun running' hrunning attempt packet hwork =>
    .inl (hjobs running' hrunning attempt packet hwork)
  fresh := fun _ hfresh => hfresh
  answers := fun _ _ hanswer => .inl hanswer
  queued := fun _ _ hentry _ hjob _ _ _ => .inr (queued_update hle hentry hjob)

/-- A started freeze is answered or lost. -/
theorem setCall (h : Steady w next) {attempt : Nat} {state : CallState}
    (hfresh : state.fresh = true → (w.calls attempt).fresh = true)
    (hanswer : ∀ answer, state = .answered (.ok answer) → ∃ running ∈ w.running, ∃ packet,
      running.work = .freeze attempt packet ∧ running.reply = .ok answer) :
    Steady w (next.setCall attempt state) where
  snapshot := h.snapshot
  jobs := h.jobs
  fresh := by
    intro other hother
    change (Function.update next.calls attempt state other).fresh = true at hother
    rcases eq_or_ne other attempt with rfl | hne
    · rw [Function.update_self] at hother
      exact hfresh hother
    · rw [Function.update_of_ne hne] at hother
      exact h.fresh other hother
  answers := by
    intro other answer hother
    change Function.update next.calls attempt state other = _ at hother
    rcases eq_or_ne other attempt with rfl | hne
    · rw [Function.update_self] at hother
      exact .inr (hanswer answer hother)
    · rw [Function.update_of_ne hne] at hother
      exact h.answers other answer hother
  queued := h.queued

end Steady

/-- The action runs a freeze. -/
def runsFreeze (w : World σ) : Action σ → Bool
  | .run index _ =>
    match w.running[index]? with
    | some running => running.work.attempt?.isSome
    | none => false
  | _ => false

/-- A job waits in the mailbox or is refused; a freeze is no read. -/
theorem Steady.admitted {locality : LocalityId} {target : Target}
    {placement read domainAvailable : Bool} {job : ActionJob Input}
    (hread : ∀ attempt packet, job.input = .freeze attempt packet → read = false)
    (hobject : target.object = w.plan.object) :
    Steady w (w.setStore locality
      ((w.stores locality).admitTo target placement read job domainAvailable w.now).2) where
  snapshot := rfl
  jobs := fun _ hmem _ _ _ => .inl hmem
  fresh := fun _ h => h
  answers := fun _ _ h => .inl h
  queued := by
    intro other entry hentry found hfound attempt packet hfreeze
    by_cases heq : other = locality
    · subst heq
      simp only [World.setStore, Function.update_self] at hentry
      rw [← hobject] at hentry ⊢
      rcases admitTo_queue_mem _ _ _ _ _ _ _ hentry hfound with hold | rfl
      · exact .inr hold
      · rw [hread attempt packet hfreeze]
        exact .inl rfl
    · simp only [World.setStore, Function.update_of_ne heq] at hentry
      exact .inr ⟨entry, hentry, hfound⟩

theorem Base.steady (hbase : Base w) (htags : FreezeTags w.plan.object w.stores w.running)
    {action : Action σ} (haside : action.isAside = true) (hfreeze : runsFreeze w action = false)
    (hnext : w.step action = some next) : Steady w next := by
  cases action with
  | tick elapsed =>
    cases hnext
    exact ⟨rfl, fun _ hmem _ _ _ => .inl hmem, fun _ h => h, fun _ _ h => .inl h,
      fun _ entry hentry _ hjob _ _ _ => .inr ⟨entry, hentry, hjob⟩⟩
  | call locality actionId objectType epoch payload request domain domainAvailable =>
    simp only [World.step, World.deliverCall] at hnext
    split at hnext
    · cases hnext
    · split at hnext
      case h_1 job hok =>
        cases hnext
        refine .start (admitTo_queueLe ⟨_, _, _, _⟩ (by rw [hok]; simp)) ?_
        intro found hfound attempt packet hinput
        rw [List.mem_singleton.mp hfound, (admitTo_started hok).1] at hinput
        cases hinput
      case h_2 =>
        cases hnext
        exact .admitted (fun _ _ hinput => by cases hinput) rfl
  | direct locality objectType epoch update =>
    cases hnext
    unfold World.directCall
    simp only
    split
    · exact ⟨rfl, fun _ hmem _ _ _ => .inl hmem, fun _ h => h, fun _ _ h => .inl h,
        fun _ entry hentry _ hjob _ _ _ => .inr ⟨entry, hentry, hjob⟩⟩
    · refine .quiet (admitLocal_queueLe _ _ _ _ _) rfl ?_
      intro running hrunning attempt packet hwork
      rcases List.mem_append.mp hrunning with hold | hnew
      · exact hold
      · rw [List.mem_singleton.mp hnew] at hwork
        cases hwork
  | retry locality order max available =>
    simp only [World.step] at hnext
    split at hnext
    · cases hnext
      obtain ⟨hle, hfrom⟩ := (w.stores locality).retryReady_from order max available
      refine .start hle ?_
      intro job hjob attempt packet hinput
      obtain ⟨object, entry, hentry, hqueue⟩ := hfrom job hjob
      obtain ⟨rfl, hcall, -⟩ := hbase.mailboxes.queued locality object entry hentry job hqueue
        attempt packet hinput
      exact ⟨htags.queued locality entry hentry job hqueue attempt packet hinput, by
        rw [hcall]; rfl⟩
    · cases hnext
  | run index contended =>
    simp only [World.step] at hnext
    split at hnext
    case h_1 running hrunning =>
      have hset : ∀ after : Running σ, after.work = running.work →
          ∀ found ∈ w.running.set index after, ∀ attempt packet,
            found.work = .freeze attempt packet → found ∈ w.running := by
        intro after hwork found hfound attempt packet hfreezes
        rcases List.mem_or_eq_of_mem_set hfound with hold | rfl
        · exact hold
        · rw [hwork] at hfreezes
          simp [runsFreeze, hrunning, hfreezes, Work.attempt?] at hfreeze
      split at hnext
      · cases hnext
      · cases hnext
        unfold World.runJob
        simp only
        split
        · exact .quiet (executeAction_queueLe _ _ _ _ _ _ _) rfl (hset _ rfl)
        case h_2 update hwork =>
          refine .quiet ?_ rfl (hset _ rfl)
          rcases executeDirect_cases (w.stores running.locality) running.job.object update contended
            with hsame | ⟨write, -, hwrite⟩
          · rw [hsame]
            exact .refl _
          · rw [hwrite]
            exact writeDirect_queueLe _ _ _
        case h_3 attempt packet hwork =>
          simp [runsFreeze, hrunning, hwork, Work.attempt?] at hfreeze
    case h_2 => cases hnext
  | finish index =>
    obtain ⟨running, hrunning, rfl⟩ := Option.map_eq_some_iff.mp hnext
    have hmem := List.mem_of_getElem? hrunning
    have hquiet : Steady w { w.setStore running.locality
        (World.finishStore (w.stores running.locality) running) with
          running := w.running.eraseIdx index } :=
      .quiet (finishStore_frame _ running).2 rfl fun found hfound _ _ _ =>
        List.mem_of_mem_eraseIdx hfound
    unfold World.finishJob
    simp only
    split
    case h_1 attempt packet hwork =>
      refine hquiet.setCall (fun hfresh => ?_) fun answer hanswer => ?_
      · have hnot := (htags.started running hmem attempt packet hwork).2
        cases hreply : running.reply with
        | moved found location => exact absurd hreply (hnot found location)
        | ok answer =>
          rw [hreply] at hfresh
          cases hfresh
        | failed =>
          rw [hreply] at hfresh
          cases hfresh
      · exact ⟨running, hmem, packet, hwork, by simpa using hanswer⟩
    case h_2 => exact hquiet
  | abandon index =>
    simp only [World.step] at hnext
    split at hnext
    case h_1 running hrunning =>
      have hquiet : Steady w { w with running := w.running.eraseIdx index } :=
        ⟨rfl, fun _ hmem _ _ _ => .inl (List.mem_of_mem_eraseIdx hmem), fun _ h => h,
          fun _ _ h => .inl h, fun _ entry hentry _ hjob _ _ _ => .inr ⟨entry, hentry, hjob⟩⟩
      split at hnext
      · cases hnext
        exact hquiet.setCall (by simp [CallState.fresh]) (by simp)
      · cases hnext
        exact hquiet
    case h_2 => cases hnext
  | expire locality order =>
    simp only [World.step] at hnext
    split at hnext
    · cases hnext
      exact .quiet (expire_queueLe w.now order _) rfl fun _ hmem _ _ _ => hmem
    · cases hnext
  | _ => cases haside

theorem deliverFreeze_steady {attempt : Nat} {request : Request}
    (hsent : w.calls attempt = .sent request) (hstep : request.step = .freeze)
    (hobject : request.packet.object = w.plan.object) (domainAvailable : Bool) :
    Steady w (w.deliverFreeze attempt request domainAvailable) := by
  have hfresh : (w.calls attempt).fresh = true := by
    rw [hsent]
    simp [CallState.fresh, hstep]
  have hsteady := @Steady.admitted _ w request.place.locality
    ⟨request.packet.object, request.packet.objectType, request.packet.fromLocation.epoch,
      some request.packet.migration⟩ false false domainAvailable
    (World.freezeJob attempt request.place request.packet) (fun _ _ _ => rfl) hobject
  unfold World.deliverFreeze
  simp only
  split
  case h_1 job hok =>
    refine .start (admitTo_queueLe ⟨_, _, _, _⟩ (by rw [hok]; simp)) ?_
    intro found hfound other packet hinput
    obtain ⟨hsame, -, htag⟩ := admitTo_started hok
    rw [List.mem_singleton.mp hfound] at hinput ⊢
    rw [hsame] at hinput
    cases hinput
    refine ⟨?_, hfresh⟩
    rw [htag, hobject]
    rfl
  case h_2 => exact hsteady.setCall (fun _ => hfresh) (by simp)
  case h_3 error herror =>
    refine hsteady.setCall (fun _ => hfresh) fun answer hanswer => ?_
    cases error <;> cases hanswer

/-! ### Running a freeze -/

theorem runsFreeze_cases {action : Action σ} (hfreeze : runsFreeze w action = true)
    (hnext : w.step action = some next) :
    ∃ index contended running attempt packet, action = .run index contended ∧
      w.running[index]? = some running ∧ running.ran = false ∧
      running.work = .freeze attempt packet ∧ next = w.runJob index running contended := by
  cases action with
  | run index contended =>
    simp only [World.step] at hnext
    split at hnext
    case h_1 running hrunning =>
      split at hnext
      case isTrue => cases hnext
      case isFalse hran =>
        cases hnext
        simp only [runsFreeze, hrunning] at hfreeze
        cases hwork : running.work with
        | freeze attempt packet =>
          exact ⟨index, contended, running, attempt, packet, rfl, hrunning, by simpa using hran,
            hwork, rfl⟩
        | action actionId objectType epoch payload =>
          rw [hwork] at hfreeze
          cases hfreeze
        | direct update =>
          rw [hwork] at hfreeze
          cases hfreeze
    case h_2 => cases hnext
  | _ => cases hfreeze

/-- What a freeze leaves behind: an error, or the snapshot of the state it found. -/
theorem freezeMigration_taken (store : Store σ Input) (packet : MigrationPacket)
    (contended : Bool) (now : Nat) :
    let result := store.freezeMigration packet contended now
    (∃ error, result.1 = .error error) ∨
    ∃ entry registration freezer state snapshot, store.entryAt packet.object = some entry ∧
      entry.state = some state ∧
      store.registry.types.lookup packet.objectType = some registration ∧
      registration.freezer = some freezer ∧ (freezer state).1 = .ok snapshot ∧
      result.1 = .ok { packet with snapshot := snapshot } ∧
      World.stateAt result.2 packet.object = some (freezer state).2 := by
  intro result
  rcases store.freezeMigration_cases packet contended now with ⟨error, hsame⟩ |
    ⟨entry, freezer, _, hentry, -, hfreezer, -, ⟨error, -, herror, -⟩ |
      ⟨error, _, _, -, herror, -⟩ | ⟨state, snapshot, _, hstate, hsnapshot, hok, hset⟩⟩
  · exact .inl ⟨error, by rw [show result = _ from hsame]⟩
  · exact .inl ⟨error, herror⟩
  · exact .inl ⟨error, herror⟩
  · obtain ⟨-, -, registration, hlook, hregistered⟩ := freezerFor_ok hfreezer
    refine .inr ⟨entry, registration, freezer, state, snapshot, hentry, hstate, hlook, hregistered,
      hsnapshot, hok, ?_⟩
    change (result.2.entryAt packet.object).bind _ = _
    rw [show result.2 = _ from hset, entryAt_setEntry_self]
    rfl

/-- Only one freeze can be under way. -/
theorem Base.only_freeze (hbase : Base w) (hgave : w.history.gaveUp = false) {index attempt : Nat}
    {packet : MigrationPacket} {running : Running σ} (hrunning : w.running[index]? = some running)
    (hwork : running.work = .freeze attempt packet) :
    (∀ other, (w.calls other).fresh = false) ∧
    ∀ other ∈ w.running.eraseIdx index, other.work.attempt? = none := by
  obtain ⟨hcall, -⟩ := hbase.mailboxes.started running (List.mem_of_getElem? hrunning) attempt packet
    hwork
  have hlatest : attempt = w.coordinator.attempt :=
    hbase.protocol.live_eq hgave (by rw [hcall]; rfl)
  refine ⟨fun other => ?_, fun other hother => ?_⟩
  · cases hfresh : (w.calls other).fresh with
    | false => rfl
    | true =>
      have hsame : other = attempt :=
        (hbase.protocol.live_eq hgave (CallState.live_of_fresh hfresh)).trans hlatest.symm
      rw [hsame, hcall] at hfresh
      cases hfresh
  · cases hfound : other.work with
    | freeze found packet' =>
      obtain ⟨hcall', -⟩ := hbase.mailboxes.started other (List.mem_of_mem_eraseIdx hother) found
        packet' hfound
      have hsame : found = attempt :=
        (hbase.protocol.live_eq hgave (by rw [hcall']; rfl)).trans hlatest.symm
      subst hsame
      have hnot := startedAttempts_eraseIdx hrunning hwork hbase.mailboxes.startedOnce
      exact absurd (mem_startedAttempts.mpr ⟨other, hother, packet', hfound⟩) hnot
    | action actionId objectType epoch payload => rfl
    | direct update => rfl

/-- The other jobs after one of them went on. -/
theorem mem_set_cases {running : List (Running σ)} {index : Nat} {before after found : Running σ}
    (hbefore : running[index]? = some before) (h : found ∈ running.set index after) :
    found = after ∨ found ∈ running.eraseIdx index := by
  obtain ⟨hlt, -⟩ := List.getElem?_eq_some_iff.mp hbefore
  exact List.mem_cons.mp ((List.set_perm_cons_eraseIdx hlt after).mem_iff.mp h)

/-! ### The tags -/

theorem FreezeTags.steady (htags : FreezeTags w.plan.object w.stores w.running)
    (hsteady : Steady w next) : FreezeTags w.plan.object next.stores next.running := by
  constructor
  · intro locality entry hentry job hjob attempt packet hinput
    rcases hsteady.queued locality entry hentry job hjob attempt packet hinput with htag |
      ⟨before, hbefore, hold⟩
    · exact htag
    · exact htags.queued locality before hbefore job hold attempt packet hinput
  · intro running hrunning attempt packet hwork
    rcases hsteady.jobs running hrunning attempt packet hwork with hold | ⟨-, hreply, hjob, -⟩
    · exact htags.started running hold attempt packet hwork
    · exact ⟨hjob, by simp [hreply]⟩

/-- The tags after a freeze ran. -/
theorem FreezeTags.runFreeze (htags : FreezeTags w.plan.object w.stores w.running)
    {index attempt : Nat} {packet : MigrationPacket} {running : Running σ} (contended : Bool)
    (hrunning : w.running[index]? = some running) (hwork : running.work = .freeze attempt packet) :
    FreezeTags w.plan.object (w.runJob index running contended).stores
      (w.runJob index running contended).running := by
  unfold World.runJob
  rw [hwork]
  constructor
  · intro locality entry hentry job hjob other packet' hinput
    obtain ⟨before, hbefore, hold⟩ := queued_update
      (freezeMigration_queueLe (w.stores running.locality) packet contended w.now) hentry hjob
    exact htags.queued locality before hbefore job hold other packet' hinput
  · intro found hfound other packet' hfreezes
    rcases mem_set_cases hrunning hfound with rfl | hother
    · refine ⟨(htags.started running (List.mem_of_getElem? hrunning) attempt packet hwork).1, ?_⟩
      cases ((w.stores running.locality).freezeMigration packet contended w.now).1 <;>
        simp [Reply.ofResult]
    · exact htags.started found (List.mem_of_mem_eraseIdx hother) other packet' hfreezes

end Hataori.Migration
