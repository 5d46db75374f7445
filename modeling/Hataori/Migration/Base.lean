import Hataori.Migration.Mailboxes

/-!
# What every run keeps

The invariant that needs no assumption on the run: the coordinator's calls are
accounted for and every freeze is in one place.
-/

namespace Hataori.Migration

open Hataori.Runtime Hataori.Object Hataori.Object.Store

variable {σ : Type} {w next : World σ}

/-- The part of the invariant that holds along every run. -/
structure Base (w : World σ) : Prop where
  protocol : Protocol w.plan w.coordinator w.calls w.history.gaveUp
  mailboxes : Mailboxes w.plan w.calls w.stores w.running

/-- The state in which a migration begins: `migrate` has sent the freeze, and no
    store has a trace of the migration. -/
structure Initial (w : World σ) : Prop where
  plan : w.coordinator.packet = w.plan
  authority : w.coordinator.authority.locality = w.plan.authority
  phase : w.coordinator.phase = .freeze
  attempt : w.coordinator.attempt = 0
  sent : ∃ place, w.calls 0 = .sent ⟨.freeze, place, w.plan⟩
  idle : ∀ attempt, 0 < attempt → w.calls attempt = .idle
  running : w.running = []
  history : w.history = .start
  localId : ∀ locality, (w.stores locality).localId = locality
  tagged : ∀ locality, QueueTagged (w.stores locality)
  calls : ∀ locality object entry, (w.stores locality).entryAt object = some entry →
    attemptsOf entry.admission.queue = []
  untouched : ∀ locality entry, (w.stores locality).entryAt w.plan.object = some entry →
    holdsSlot entry w.plan.migration = false ∧ frozenBy entry w.plan.migration = false

theorem Ours.refl (plan : MigrationPacket) : Ours plan plan := ⟨rfl, rfl, rfl, rfl, rfl⟩

theorem Initial.base (h : Initial w) : Base w := by
  obtain ⟨place, hsent⟩ := h.sent
  have hgave : w.history.gaveUp = false := by rw [h.history]; rfl
  refine ⟨?_, ?_⟩
  · constructor
    · rw [h.plan]
      exact .refl _
    · rw [h.attempt]
      exact h.idle
    · rw [h.attempt]
      exact fun _ attempt hlt => absurd hlt (Nat.not_lt_zero _)
    · rw [h.attempt]
      intro request hrequest
      rw [hsent] at hrequest
      cases hrequest
      refine ⟨.inr (by rw [h.phase]; rfl), h.plan.symm, ?_, ?_⟩
      · rintro (hstep | hstep) <;> cases hstep
      · intro hstep
        cases hstep
    · exact fun _ _ => .inr h.phase
    · intro attempt request hrequest
      rcases Nat.eq_zero_or_pos attempt with rfl | hpos
      · rw [hsent] at hrequest
        cases hrequest
        exact .refl _
      · rw [h.idle attempt hpos] at hrequest
        cases hrequest
    · intro attempt reply hreply
      rcases Nat.eq_zero_or_pos attempt with rfl | hpos
      · rw [hsent] at hreply
        cases hreply
      · rw [h.idle attempt hpos] at hreply
        cases hreply
    · rw [h.phase]
      intro hfalse
      cases hfalse
    · intro attempt request hrequest hstep
      rcases Nat.eq_zero_or_pos attempt with rfl | hpos
      · rw [hsent] at hrequest
        cases hrequest
        cases hstep
      · rw [h.idle attempt hpos] at hrequest
        cases hrequest
  · refine ⟨h.localId, h.tagged, ?_, ?_, ?_, ?_⟩
    · intro locality object entry hentry job hjob attempt packet hinput
      have hmem : attempt ∈ attemptsOf entry.admission.queue :=
        mem_attemptsOf.mpr ⟨job, hjob, packet, hinput⟩
      rw [h.calls locality object entry hentry] at hmem
      cases hmem
    · intro locality object entry hentry
      rw [h.calls locality object entry hentry]
      exact List.nodup_nil
    · rw [h.running]
      intro running' hmem
      cases hmem
    · rw [h.running]
      exact List.nodup_nil

/-- A step executed where it arrives touches its object only. -/
theorem execute_touches (store : Store σ Input) (step : Step) (packet : MigrationPacket)
    (now : Nat) : Touches packet.object store (World.execute store step packet now).2 := by
  cases step with
  | freeze => exact .refl _ _
  | prepare => exact (store.prepareMigration_cases packet now).1
  | commit =>
    rcases store.commitMigration_cases packet now with ⟨_, hsame⟩ |
      ⟨_, -, -, -, -, -, htouch, -⟩
    · simp only [World.execute, hsame]
      exact .refl _ _
    · exact htouch
  | activate =>
    rcases store.activateMigration_cases packet with ⟨_, hsame⟩ | ⟨_, _, -, -, -, htouch, -⟩
    · simp only [World.execute, hsame]
      exact .refl _ _
    · exact htouch
  | rollback => exact rollbackMigration_touches store packet
  | retire =>
    rcases store.retireMigration_cases packet now with ⟨_, hsame, -⟩ | ⟨_, -, -, -, htouch, -⟩
    · simp only [World.execute, hsame]
      exact .refl _ _
    · exact htouch

theorem execute_queueLe (store : Store σ Input) (step : Step) (packet : MigrationPacket)
    (now : Nat) : QueueLe (World.execute store step packet now).2 store := by
  cases step with
  | freeze => exact .refl store
  | prepare => exact prepareMigration_queueLe store packet now
  | commit => exact commitMigration_queueLe store packet now
  | activate => exact activateMigration_queueLe store packet
  | rollback => exact rollbackMigration_queueLe store packet
  | retire => exact retireMigration_queueLe store packet now

/-- Every step but the preparation answers with the packet it got. -/
theorem execute_packet {store : Store σ Input} {step : Step} {packet answer : MigrationPacket}
    {now : Nat} (h : (World.execute store step packet now).1 = .ok answer)
    (hstep : step ≠ .prepare) : answer = packet := by
  cases step with
  | freeze => cases h
  | prepare => exact absurd rfl hstep
  | commit =>
    rcases store.commitMigration_cases packet now with ⟨_, hsame⟩ | ⟨_, -, -, -, -, hok, -⟩
    · simp only [World.execute, hsame] at h
      cases h
    · exact (Except.ok.inj (hok.symm.trans h)).symm
  | activate =>
    rcases store.activateMigration_cases packet with ⟨_, hsame⟩ |
      ⟨_, _, -, -, -, -, ⟨_, -, herror, -⟩ | ⟨-, -, hok, -⟩⟩
    · simp only [World.execute, hsame] at h
      cases h
    · exact absurd (herror.symm.trans h) (by simp)
    · exact (Except.ok.inj (hok.symm.trans h)).symm
  | rollback => exact (Except.ok.inj h).symm
  | retire =>
    rcases store.retireMigration_cases packet now with ⟨_, hsame, hkept⟩ | ⟨_, -, hok, -⟩
    · simp only [World.execute, hsame] at h
      exact hkept answer h
    · exact (Except.ok.inj (hok.symm.trans h)).symm

/-- A step answers with a packet of its own migration. -/
theorem execute_ours {plan : MigrationPacket} (store : Store σ Input) (step : Step)
    {packet : MigrationPacket} (now : Nat) (hours : Ours plan packet) :
    (Reply.ofResult (World.execute store step packet now).1).OursIn plan := by
  intro answer hanswer
  have hok : (World.execute store step packet now).1 = .ok answer := by
    cases hresult : (World.execute store step packet now).1 with
    | error error =>
      rw [hresult] at hanswer
      cases hanswer
    | ok found =>
      rw [hresult] at hanswer
      cases hanswer
      rfl
  by_cases hstep : step = .prepare
  · subst hstep
    rcases (store.prepareMigration_cases packet now).2 with ⟨_, herror, -⟩ |
      ⟨location, _, _, _, _, hprepared, -⟩
    · exact absurd (herror.symm.trans hok) (by simp)
    · rw [← Except.ok.inj (hprepared.symm.trans hok)]
      exact ⟨hours.object, hours.migration, hours.objectType, hours.authority, hours.destination⟩
  · rw [execute_packet hok hstep]
    exact hours

theorem executeDirect_cases (store : Store σ Input) (object : ObjectId)
    (update : Option (σ → σ)) (contended : Bool) :
    World.executeDirect store object update contended = store ∨
    ∃ write, update = some write ∧
      World.executeDirect store object update contended = store.writeDirect object write := by
  cases update with
  | none => exact .inl rfl
  | some write =>
    cases contended with
    | true => exact .inl rfl
    | false => exact .inr ⟨write, rfl, rfl⟩

theorem finishStore_frame (store : Store σ Input) (running : Running σ) :
    (World.finishStore store running).localId = store.localId ∧
      QueueLe (World.finishStore store running) store := by
  unfold World.finishStore
  split
  · exact ⟨(collect_touches _ _).localId.trans (complete_quiet store running.job).localId,
      (complete_queueLe _ _).trans (collect_queueLe _ _)⟩
  · exact ⟨(complete_quiet store running.job).localId, complete_queueLe _ _⟩

theorem Phase.eq_freeze {phase : Phase} (h : phase.step = some .freeze) : phase = .freeze := by
  cases phase <;> simp_all [Phase.step]

theorem Protocol.startFreezes {plan : MigrationPacket} {c : Coordinator} {calls : Nat → CallState}
    {gaveUp : Bool} (h : Protocol plan c calls gaveUp) (locality : LocalityId)
    (jobs : List (ActionJob Input)) (hlive : ∀ attempt ∈ attemptsOf jobs,
      (calls attempt).live = true)
    (hphase : ∀ attempt ∈ attemptsOf jobs, attempt = c.attempt →
      c.phase.step = none ∨ c.phase = .freeze) :
    Protocol plan c (World.startFreezes locality calls jobs) gaveUp := by
  induction jobs generalizing calls with
  | nil => exact h
  | cons job rest ih =>
    have hrest : ∀ attempt ∈ attemptsOf rest, attempt ∈ attemptsOf (job :: rest) := fun _ hmem =>
      ((List.sublist_cons_self job rest).filterMap _).subset hmem
    unfold World.startFreezes
    cases hinput : job.input with
    | call objectType epoch payload =>
      exact ih h (fun attempt hmem => hlive attempt (hrest attempt hmem))
        (fun attempt hmem => hphase attempt (hrest attempt hmem))
    | freeze attempt packet =>
      have hself : attempt ∈ attemptsOf (job :: rest) :=
        mem_attemptsOf.mpr ⟨job, List.mem_cons_self, packet, hinput⟩
      refine ih (h.move (hlive attempt hself) (by simp) ?_ (by simp)) ?_ ?_
      · exact fun _ _ heq => hphase attempt hself heq
      · intro other hmem
        rcases eq_or_ne other attempt with rfl | hne
        · rw [Function.update_self]
          rfl
        · rw [Function.update_of_ne hne]
          exact hlive other (hrest other hmem)
      · exact fun other hmem => hphase other (hrest other hmem)

theorem Polled.attempt_lt {c c' : Coordinator} {reply : Reply} {request : Request}
    (h : Polled c reply c' (some request)) : c.attempt < c'.attempt := by
  cases h <;> omega

/-- The pieces of a coordinator step. -/
theorem proceed_eq (w : World σ) (reply : Reply) (sent rollbackSent : Bool) :
    w.proceed reply sent rollbackSent =
      { w with
        coordinator := (w.coordinator.poll w.maxRedirects reply sent rollbackSent).1
        calls := withRequest w.calls
          (w.coordinator.poll w.maxRedirects reply sent rollbackSent).1.attempt
          (w.coordinator.poll w.maxRedirects reply sent rollbackSent).2
        history :=
          { w.history with
            gaveUp := w.history.gaveUp ||
              (w.coordinator.poll w.maxRedirects reply sent rollbackSent).1.phase.isRollback } } :=
    by
  unfold World.proceed
  simp only
  cases (w.coordinator.poll w.maxRedirects reply sent rollbackSent).2 with
  | none => rfl
  | some request => rfl

namespace Base

/-- A store changes under calls only. -/
theorem setStore (h : Base w) {locality : LocalityId} {store : Store σ Input}
    (hlocal : store.localId = (w.stores locality).localId)
    (hle : QueueLe store (w.stores locality)) : Base (w.setStore locality store) :=
  ⟨h.protocol, h.mailboxes.setStore hlocal hle⟩

theorem sent_phase (h : Base w) {attempt : Nat} {request : Request}
    (hsent : w.calls attempt = .sent request) (hfreeze : request.step = .freeze)
    (heq : attempt = w.coordinator.attempt) :
    w.coordinator.phase.step = none ∨ w.coordinator.phase = .freeze := by
  subst heq
  rcases (h.protocol.latest request hsent).phase with hnone | hsome
  · exact .inl hnone
  · exact .inr (Phase.eq_freeze (hsome.trans (by rw [hfreeze])))

/-- A call on its way is answered or lost. -/
theorem setCall (h : Base w) {attempt : Nat} {state : CallState}
    (hlive : (∃ request, w.calls attempt = .sent request) ∨
      ∃ reply, w.calls attempt = .answered reply)
    (hstate : state = .gone ∨ ∃ reply : Reply, state = .answered reply ∧ reply.OursIn w.plan) :
    Base (w.setCall attempt state) := by
  refine ⟨h.protocol.move ?_ ?_ ?_ ?_, h.mailboxes.setCall state ?_ ?_⟩
  · rcases hlive with ⟨_, hcall⟩ | ⟨_, hcall⟩ <;> rw [hcall] <;> rfl
  · rcases hstate with rfl | ⟨_, rfl, -⟩ <;> simp
  · rcases hstate with rfl | ⟨_, rfl, -⟩ <;> simp
  · rcases hstate with rfl | ⟨_, rfl, hours⟩
    · simp
    · rintro reply hreply
      cases hreply
      exact hours
  · rcases hlive with ⟨_, hcall⟩ | ⟨_, hcall⟩ <;> simp [hcall]
  · rcases hlive with ⟨_, hcall⟩ | ⟨_, hcall⟩ <;> simp [hcall]

/-- The history beyond the rollback flag is not part of the invariant. -/
theorem setHistory (h : Base w) (history : History σ)
    (hgave : history.gaveUp = w.history.gaveUp) : Base { w with history := history } :=
  ⟨hgave ▸ h.protocol, h.mailboxes⟩

theorem deliverStep (h : Base w) {attempt : Nat} {request : Request}
    (hsent : w.calls attempt = .sent request) : Base (w.deliverStep attempt request) := by
  have hlocal := (execute_touches (w.stores request.place.locality) request.step request.packet
    w.now).localId
  have hle := execute_queueLe (w.stores request.place.locality) request.step request.packet w.now
  have hours := execute_ours (w.stores request.place.locality) request.step w.now
    (h.protocol.ours attempt request hsent)
  refine ((h.setStore hlocal hle).setCall (.inl ⟨request, hsent⟩)
    (.inr ⟨_, rfl, hours⟩)).setHistory _ ?_
  unfold World.record
  split
  · rfl
  · split <;> rfl

theorem deliverFreeze (h : Base w) {attempt : Nat} {request : Request} (domainAvailable : Bool)
    (hsent : w.calls attempt = .sent request) (hstep : request.step = .freeze) :
    Base (w.deliverFreeze attempt request domainAvailable) := by
  have hours := h.protocol.ours attempt request hsent
  have hphase := h.sent_phase hsent hstep
  unfold World.deliverFreeze
  simp only
  have hcases := Store.admitTo_cases (w.stores request.place.locality)
    ⟨request.packet.object, request.packet.objectType, request.packet.fromLocation.epoch,
      some request.packet.migration⟩ false false
    (World.freezeJob attempt request.place request.packet) domainAvailable w.now
  simp only at hcases
  generalize Store.admitTo (w.stores request.place.locality) _ false false _ domainAvailable
    w.now = result at hcases ⊢
  rcases hcases with ⟨error, hsame⟩ | ⟨entry, lifecycle, hentry, -, -, -, htouch, hends⟩
  · rw [hsame]
    simp only
    refine (h.setStore rfl (.refl _)).setCall (.inl ⟨request, hsent⟩) (.inr ⟨_, rfl, ?_⟩)
    intro packet hreply
    cases error <;> cases hreply
  · rcases hends with ⟨error, hresult, hset⟩ | ⟨hfalse, -⟩ | ⟨-, -, -, hresult, hset⟩ |
      ⟨-, hresult, hset⟩
    · rw [hresult]
      simp only
      refine (h.setStore htouch.localId (.of_set htouch hentry hset rfl)).setCall
        (.inl ⟨request, hsent⟩) (.inr ⟨_, rfl, ?_⟩)
      intro packet hreply
      cases error <;> cases hreply
    · cases hfalse
    · rw [hresult]
      simp only
      have hstored : Base _ := h.setStore htouch.localId (.of_set htouch hentry hset (by
        unfold Admission.start
        split <;> rfl))
      have hattempts : attemptsOf [{ World.freezeJob attempt request.place request.packet with
          object := some ⟨request.packet.object, false, false⟩ }] = [attempt] := rfl
      refine ⟨hstored.protocol.startFreezes _ _ ?_ ?_, hstored.mailboxes.start _ ?_ ?_ ?_ ?_⟩
      · rw [hattempts]
        intro other hmem
        rw [List.mem_singleton.mp hmem]
        change (w.calls attempt).live = true
        rw [hsent]
        rfl
      · rw [hattempts]
        intro other hmem heq
        exact hphase ((List.mem_singleton.mp hmem).symm.trans heq)
      · rw [hattempts]
        exact List.nodup_singleton _
      · intro job hmem other packet hinput
        rw [List.mem_singleton.mp hmem] at hinput
        cases hinput
        exact hours
      · rw [hattempts]
        intro other hmem locality
        rw [List.mem_singleton.mp hmem]
        change w.calls attempt ≠ _
        rw [hsent]
        simp
      · rw [hattempts]
        intro other object found hfound foundAttempt hmem hin
        rw [List.mem_singleton.mp hmem] at hin
        obtain ⟨job, hjob, packet, hinput⟩ := mem_attemptsOf.mp hin
        have hcall := (hstored.mailboxes.queued other object found hfound job hjob attempt packet
          hinput).2.1
        change w.calls attempt = _ at hcall
        rw [hsent] at hcall
        cases hcall
    · rw [hresult]
      simp only
      have hobject := hours.object
      simp only [hobject] at htouch hentry hset
      refine ⟨h.protocol.move (by rw [hsent]; rfl) (by simp) (fun _ _ heq => hphase heq) (by simp),
        h.mailboxes.enqueue htouch hentry hset rfl rfl hours ⟨false, by simp⟩
          (by simp [hsent]) (by simp [hsent])⟩

/-- The coordinator goes on with a consumed answer or gives up waiting. -/
theorem proceed (h : Base w) {reply : Reply} (sent rollbackSent : Bool)
    (hours : reply.OursIn w.plan)
    (hready : w.calls w.coordinator.attempt = .gone ∨ reply = .failed) :
    Base (w.proceed reply sent rollbackSent) := by
  have hpolled := w.coordinator.poll_polled w.maxRedirects reply sent rollbackSent
  rw [proceed_eq]
  generalize w.coordinator.poll w.maxRedirects reply sent rollbackSent = result at *
  obtain ⟨c', request⟩ := result
  have hprotocol := h.protocol.polled hours hready hpolled
  cases request with
  | none => exact ⟨hprotocol, h.mailboxes⟩
  | some request =>
    have hidle : w.calls c'.attempt = .idle := h.protocol.fresh _ hpolled.attempt_lt
    exact ⟨hprotocol, h.mailboxes.setCall _ (by simp [hidle]) (by simp [hidle])⟩

theorem observe (h : Base w) {reply : Reply} (sent rollbackSent : Bool)
    (hanswered : w.calls w.coordinator.attempt = .answered reply) :
    Base ((w.setCall w.coordinator.attempt .gone).proceed reply sent rollbackSent) := by
  have hgone : Base (w.setCall w.coordinator.attempt .gone) :=
    h.setCall (.inr ⟨reply, hanswered⟩) (.inl rfl)
  refine hgone.proceed sent rollbackSent (h.protocol.answers _ reply hanswered) (.inl ?_)
  exact Function.update_self _ _ _

theorem drop (h : Base w) :
    Base { w with coordinator := { w.coordinator with phase := .done .dropped } } :=
  ⟨h.protocol.finish w.coordinator.packet h.protocol.packet (fun _ => rfl) .dropped rfl rfl rfl
    rfl, h.mailboxes⟩

/-- The call that enters a mailbox carries no freeze. -/
theorem enqueueCall (h : Base w) {locality : LocalityId} {store : Store σ Input}
    {object : ObjectId} {job : ActionJob Input} {before after : ObjectEntry σ Input}
    (htouch : Touches object (w.stores locality) store)
    (hbefore : (w.stores locality).entryAt object = some before)
    (hafter : store.entryAt object = some after)
    (hqueue : after.admission.queue = before.admission.queue ++ [job])
    (hinput : job.input.attempt? = none) (htag : ∃ read, job.object = some ⟨object, read, false⟩) :
    Base (w.setStore locality store) := by
  have hattempts : attemptsOf (before.admission.queue ++ [job]) =
      attemptsOf before.admission.queue := by
    simp [attemptsOf, hinput]
  refine ⟨h.protocol, ⟨?_, ?_, ?_, ?_, h.mailboxes.started, h.mailboxes.startedOnce⟩⟩
  · intro other
    rcases eq_or_ne other locality with rfl | hne
    · simp only [World.setStore, Function.update_self]
      rw [htouch.localId, h.mailboxes.localId]
    · simp only [World.setStore, Function.update_of_ne hne]
      exact h.mailboxes.localId other
  · intro other
    rcases eq_or_ne other locality with rfl | hne
    · simp only [World.setStore, Function.update_self]
      intro found entry hentry member hmember
      by_cases heq : found = object
      · subst heq
        rw [hafter] at hentry
        cases hentry
        rw [hqueue] at hmember
        rcases List.mem_append.mp hmember with hold | hnew
        · exact h.mailboxes.tagged other found before hbefore member hold
        · rw [List.mem_singleton.mp hnew]
          exact htag
      · rw [htouch.others found heq] at hentry
        exact h.mailboxes.tagged other found entry hentry member hmember
    · simp only [World.setStore, Function.update_of_ne hne]
      exact h.mailboxes.tagged other
  · intro other found entry hentry member hmember attempt packet hfreeze
    rcases eq_or_ne other locality with rfl | hne
    · simp only [World.setStore, Function.update_self] at hentry
      by_cases heq : found = object
      · subst heq
        rw [hafter] at hentry
        cases hentry
        rw [hqueue] at hmember
        rcases List.mem_append.mp hmember with hold | hnew
        · exact h.mailboxes.queued other found before hbefore member hold attempt packet hfreeze
        · rw [List.mem_singleton.mp hnew] at hfreeze
          rw [hfreeze] at hinput
          cases hinput
      · rw [htouch.others found heq] at hentry
        exact h.mailboxes.queued other found entry hentry member hmember attempt packet hfreeze
    · simp only [World.setStore, Function.update_of_ne hne] at hentry
      exact h.mailboxes.queued other found entry hentry member hmember attempt packet hfreeze
  · intro other found entry hentry
    rcases eq_or_ne other locality with rfl | hne
    · simp only [World.setStore, Function.update_self] at hentry
      by_cases heq : found = object
      · subst heq
        rw [hafter] at hentry
        cases hentry
        rw [hqueue, hattempts]
        exact h.mailboxes.queuedOnce other found before hbefore
      · rw [htouch.others found heq] at hentry
        exact h.mailboxes.queuedOnce other found entry hentry
    · simp only [World.setStore, Function.update_of_ne hne] at hentry
      exact h.mailboxes.queuedOnce other found entry hentry

theorem deliverCall (h : Base w) {locality : LocalityId} {actionId : ActionId}
    {objectType : ObjectTypeId} {epoch : Nat} {payload : Segments} {request : RequestId}
    {domain : DomainId} {domainAvailable : Bool}
    (hnext : w.deliverCall locality actionId objectType epoch payload request domain
      domainAvailable = some next) : Base next := by
  unfold World.deliverCall at hnext
  split at hnext
  · cases hnext
  case h_2 read placement haccess =>
    simp only at hnext
    have hcases := Store.admitTo_cases (w.stores locality) ⟨w.plan.object, objectType, epoch, none⟩
      placement read
      { requester := request.origin
        request := request
        actionId := actionId
        domain := domain
        input := .call objectType epoch payload
        cancelled := 0
        isLocal := false
        object := none } domainAvailable w.now
    simp only at hcases
    generalize Store.admitTo (w.stores locality) _ placement read _ domainAvailable
      w.now = result at hcases hnext
    rcases hcases with ⟨error, hsame⟩ | ⟨entry, lifecycle, hentry, -, -, -, htouch, hends⟩
    · rw [hsame] at hnext
      cases hnext
      exact h.setStore rfl (.refl _)
    · rcases hends with ⟨error, hresult, hset⟩ | ⟨-, -, hresult, hset⟩ | ⟨-, -, -, hresult, hset⟩ |
        ⟨-, hresult, hset⟩
      · rw [hresult] at hnext
        cases hnext
        exact h.setStore htouch.localId (.of_set htouch hentry hset rfl)
      · rw [hresult] at hnext
        cases hnext
        have hstored := h.setStore htouch.localId (.of_set htouch hentry hset rfl)
        exact ⟨hstored.protocol, hstored.mailboxes.append rfl⟩
      · rw [hresult] at hnext
        cases hnext
        have hstored := h.setStore htouch.localId (.of_set htouch hentry hset (by
          unfold Admission.start
          split <;> rfl))
        exact ⟨hstored.protocol, hstored.mailboxes.append rfl⟩
      · rw [hresult] at hnext
        cases hnext
        exact h.enqueueCall htouch hentry hset rfl rfl ⟨read, rfl⟩

theorem directCall (h : Base w) (locality : LocalityId) (objectType : ObjectTypeId) (epoch : Nat)
    (update : Option (σ → σ)) : Base (w.directCall locality objectType epoch update) := by
  unfold World.directCall
  simp only
  split
  · exact h
  · have hstored := h.setStore
      (admitLocal_quiet (w.stores locality) w.plan.object objectType epoch update.isNone).localId
      (admitLocal_queueLe (w.stores locality) w.plan.object objectType epoch update.isNone)
    exact ⟨hstored.protocol, hstored.mailboxes.append rfl⟩

/-- The jobs of a mailbox that `retry_ready` starts. -/
theorem retry (h : Base w) (locality : LocalityId) {order : List ObjectId} (hnodup : order.Nodup)
    (max : Nat) (available : Nat → DomainId → Bool) :
    Base ((w.setStore locality ((w.stores locality).retryReady order max available).2).start
      locality ((w.stores locality).retryReady order max available).1) := by
  obtain ⟨hle, hfrom⟩ := (w.stores locality).retryReady_from order max available
  have hquiet := retryReady_quiet (w.stores locality) order max available
  have hentries : ∀ entry, (w.stores locality).entryAt w.plan.object = some entry →
      ∃ started left, Retried entry started left ∧
        ((w.stores locality).retryReady order max available).2.entryAt w.plan.object =
          some (startReady entry started left) ∧
        ((w.stores locality).retryReady order max available).1.filter
          (taggedWith w.plan.object) = started :=
    fun entry hentry => retryReady_entry available max hnodup (h.mailboxes.tagged locality) hentry
  have hstored := h.setStore hquiet.localId hle
  generalize (w.stores locality).retryReady order max available = result at *
  obtain ⟨jobs, store⟩ := result
  -- a freeze among the jobs waited in the mailbox of the migrating object
  have horigin : ∀ job ∈ jobs, ∀ attempt packet, job.input = .freeze attempt packet →
      w.calls attempt = .queued locality ∧ Ours w.plan packet ∧
        taggedWith w.plan.object job = true ∧
        ∃ entry, (w.stores locality).entryAt w.plan.object = some entry := by
    intro job hjob attempt packet hinput
    obtain ⟨object, entry, hentry, hqueue⟩ := hfrom job hjob
    obtain ⟨rfl, hcall, hours⟩ := h.mailboxes.queued locality object entry hentry job hqueue attempt
      packet hinput
    obtain ⟨read, htag⟩ := h.mailboxes.tagged locality _ entry hentry job hqueue
    exact ⟨hcall, hours, by simp [taggedWith, htag], entry, hentry⟩
  have hqueued : ∀ attempt ∈ attemptsOf jobs, w.calls attempt = .queued locality := by
    intro attempt hmem
    obtain ⟨job, hjob, packet, hinput⟩ := mem_attemptsOf.mp hmem
    exact (horigin job hjob attempt packet hinput).1
  have hstarted : ∀ attempt ∈ attemptsOf jobs, ∃ entry started left,
      (w.stores locality).entryAt w.plan.object = some entry ∧ Retried entry started left ∧
        store.entryAt w.plan.object = some (startReady entry started left) ∧
        attempt ∈ attemptsOf started := by
    intro attempt hmem
    obtain ⟨job, hjob, packet, hinput⟩ := mem_attemptsOf.mp hmem
    obtain ⟨-, -, htag, entry, hentry⟩ := horigin job hjob attempt packet hinput
    obtain ⟨started, left, hretried, hset, hfilter⟩ := hentries entry hentry
    refine ⟨entry, started, left, hentry, hretried, hset, mem_attemptsOf.mpr ⟨job, ?_, packet,
      hinput⟩⟩
    rw [← hfilter]
    exact List.mem_filter.mpr ⟨hjob, htag⟩
  refine ⟨hstored.protocol.startFreezes _ _ ?_ ?_, hstored.mailboxes.start _ ?_ ?_ ?_ ?_⟩
  · intro attempt hmem
    change (w.calls attempt).live = true
    rw [hqueued attempt hmem]
    rfl
  · intro attempt hmem heq
    exact h.protocol.freezing locality (.inl (heq ▸ hqueued attempt hmem))
  · cases hentry : (w.stores locality).entryAt w.plan.object with
    | none =>
      have hnil : attemptsOf jobs = [] := by
        apply List.eq_nil_iff_forall_not_mem.mpr
        intro attempt hmem
        obtain ⟨entry, -, -, hfound, -⟩ := hstarted attempt hmem
        rw [hentry] at hfound
        cases hfound
      rw [hnil]
      exact List.nodup_nil
    | some entry =>
      obtain ⟨started, left, hretried, -, hfilter⟩ := hentries entry hentry
      rw [← attemptsOf_filter fun job hjob attempt packet hinput =>
        (horigin job hjob attempt packet hinput).2.2.1, hfilter]
      have honce := h.mailboxes.queuedOnce locality _ entry hentry
      rw [← hretried.split] at honce
      exact honce.sublist ((List.sublist_append_left _ _).filterMap _)
  · exact fun job hjob attempt packet hinput => (horigin job hjob attempt packet hinput).2.1
  · intro attempt hmem other
    change w.calls attempt ≠ _
    rw [hqueued attempt hmem]
    simp
  · intro other object found hfound attempt hmem hin
    obtain ⟨job, hjob, packet, hinput⟩ := mem_attemptsOf.mp hin
    obtain ⟨rfl, hcall, -⟩ := hstored.mailboxes.queued other object found hfound job hjob attempt
      packet hinput
    have hsame : other = locality := by
      have heq := (hqueued attempt hmem).symm.trans hcall
      cases heq
      rfl
    subst hsame
    obtain ⟨entry, started, left, hentry, hretried, hset, hstart⟩ := hstarted attempt hmem
    change (Function.update w.stores other store other).entryAt w.plan.object = some found at hfound
    rw [Function.update_self, hset] at hfound
    cases hfound
    have honce := h.mailboxes.queuedOnce other _ entry hentry
    rw [← hretried.split, attemptsOf, List.filterMap_append] at honce
    exact (List.nodup_append.mp honce).2.2 attempt hstart attempt hin rfl

theorem runJob (h : Base w) {index : Nat} {running : Running σ} (contended : Bool)
    (hrunning : w.running[index]? = some running) : Base (w.runJob index running contended) := by
  unfold World.runJob
  simp only
  split
  case h_1 actionId objectType epoch payload hwork =>
    have hstored := h.setStore
      (executeAction_quiet (w.stores running.locality) actionId running.job.object objectType epoch
        payload contended).localId
      (executeAction_queueLe (w.stores running.locality) actionId running.job.object objectType
        epoch payload contended)
    exact ⟨hstored.protocol, hstored.mailboxes.setRunning hrunning rfl rfl (by simp [hwork,
      Work.attempt?])⟩
  case h_2 update hwork =>
    have hstored : Base (w.setStore running.locality
        (World.executeDirect (w.stores running.locality) running.job.object update contended)) := by
      rcases executeDirect_cases (w.stores running.locality) running.job.object update contended
        with hsame | ⟨write, -, hwrite⟩
      · rw [hsame]
        exact h.setStore rfl (.refl _)
      · rw [hwrite]
        exact h.setStore (writeDirect_quiet _ _ _).localId (writeDirect_queueLe _ _ _)
    exact ⟨hstored.protocol, hstored.mailboxes.setRunning hrunning rfl rfl (by simp [hwork,
      Work.attempt?])⟩
  case h_3 attempt packet hwork =>
    obtain ⟨-, hours, -⟩ := h.mailboxes.started running (List.mem_of_getElem? hrunning) attempt
      packet hwork
    have hcases := (w.stores running.locality).freezeMigration_cases packet contended w.now
    have hlocal : ((w.stores running.locality).freezeMigration packet contended w.now).2.localId =
        (w.stores running.locality).localId := by
      rcases hcases with ⟨_, hsame⟩ | ⟨_, _, _, -, -, -, -, ⟨_, -, -, hset⟩ |
        ⟨_, _, _, -, -, hset⟩ | ⟨_, _, _, -, -, -, hset⟩⟩
      · rw [hsame]
      all_goals
        rw [hset]
        rfl
    have hreply : (Reply.ofResult ((w.stores running.locality).freezeMigration packet contended
        w.now).1).OursIn w.plan := by
      intro answer hanswer
      rcases hcases with ⟨_, hsame⟩ | ⟨_, _, _, -, -, -, -, ⟨_, -, herror, -⟩ |
        ⟨_, _, _, -, herror, -⟩ | ⟨_, snapshot, _, -, -, hok, -⟩⟩
      · rw [hsame] at hanswer
        cases hanswer
      · rw [herror] at hanswer
        cases hanswer
      · rw [herror] at hanswer
        cases hanswer
      · rw [hok] at hanswer
        cases hanswer
        exact ⟨hours.object, hours.migration, hours.objectType, hours.authority,
          hours.destination⟩
    have hstored := h.setStore hlocal
      (freezeMigration_queueLe (w.stores running.locality) packet contended w.now)
    exact ⟨hstored.protocol, hstored.mailboxes.setRunning hrunning rfl rfl fun _ => hreply⟩

/-- A started job leaves; its locality forgets it. -/
theorem finishJob (h : Base w) {index : Nat} {running : Running σ}
    (hrunning : w.running[index]? = some running) : Base (w.finishJob index running) := by
  have hstored := h.setStore (finishStore_frame (w.stores running.locality) running).1
    (finishStore_frame (w.stores running.locality) running).2
  unfold World.finishJob
  simp only
  split
  case h_1 attempt packet hwork =>
    obtain ⟨hcall, -, hreply⟩ := h.mailboxes.started running (List.mem_of_getElem? hrunning) attempt
      packet hwork
    refine ⟨hstored.protocol.move ?_ (by simp) (by simp) ?_,
      hstored.mailboxes.eraseFreeze hrunning hwork _⟩
    · change (w.calls attempt).live = true
      rw [hcall]
      rfl
    · rintro reply hanswered
      cases hanswered
      exact hreply
  case h_2 => exact ⟨hstored.protocol, hstored.mailboxes.erase index⟩

theorem expireAt (h : Base w) (locality : LocalityId) (order : List ObjectId) :
    Base (w.expireAt locality order) :=
  (h.setStore (expire_config w.now order _).1 (expire_queueLe w.now order _)).setHistory _ rfl

/-- A step of the stores or the calls keeps the invariant. -/
theorem stepAside (h : Base w) {action : Action σ} (haside : action.isAside = true)
    (hnext : w.step action = some next) : Base next := by
  cases action with
  | tick elapsed =>
    cases hnext
    exact ⟨h.protocol, h.mailboxes⟩
  | call => exact h.deliverCall hnext
  | direct locality objectType epoch update =>
    cases hnext
    exact h.directCall locality objectType epoch update
  | retry locality order max available =>
    simp only [World.step] at hnext
    split at hnext
    case isTrue hnodup =>
      cases hnext
      exact h.retry locality hnodup max available
    case isFalse => cases hnext
  | run index contended =>
    simp only [World.step] at hnext
    split at hnext
    case h_1 running hrunning =>
      split at hnext
      · cases hnext
      · cases hnext
        exact h.runJob contended hrunning
    case h_2 => cases hnext
  | finish index =>
    obtain ⟨running, hrunning, rfl⟩ := Option.map_eq_some_iff.mp hnext
    exact h.finishJob hrunning
  | abandon index =>
    simp only [World.step] at hnext
    split at hnext
    case h_1 running hrunning =>
      split at hnext
      case h_1 attempt packet hwork =>
        cases hnext
        obtain ⟨hcall, -⟩ := h.mailboxes.started running (List.mem_of_getElem? hrunning) attempt
          packet hwork
        exact ⟨h.protocol.move (by rw [hcall]; rfl) (by simp) (by simp) (by simp),
          h.mailboxes.eraseFreeze hrunning hwork _⟩
      case h_2 =>
        cases hnext
        exact ⟨h.protocol, h.mailboxes.erase index⟩
    case h_2 => cases hnext
  | expire locality order =>
    simp only [World.step] at hnext
    split at hnext
    · cases hnext
      exact h.expireAt locality order
    · cases hnext
  | _ => cases haside

/-- One step keeps the invariant. -/
theorem step (h : Base w) {action : Action σ} (hnext : w.step action = some next) :
    Base next := by
  cases w.step_stepped hnext with
  | aside haside => exact h.stepAside haside hnext
  | freeze domainAvailable hsent hstep => exact h.deliverFreeze domainAvailable hsent hstep
  | execute domainAvailable hsent hstep => exact h.deliverStep hsent
  | refuse hsent =>
    refine h.setCall (.inl ⟨_, hsent⟩) (.inr ⟨_, rfl, ?_⟩)
    intro packet hreply
    cases hreply
  | lose hlive => exact h.setCall hlive (.inl rfl)
  | observe sent rollbackSent hanswered =>
    exact h.observe sent rollbackSent hanswered
  | timeout sent rollbackSent =>
    refine h.proceed sent rollbackSent ?_ (.inr rfl)
    intro packet hreply
    cases hreply
  | drop => exact h.drop

end Base

end Hataori.Migration
