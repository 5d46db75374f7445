import Hataori.Migration.Base

/-!
# The commit is the decision

In a run in which the coordinator hears about the commit (it is not executed after
the coordinator started to roll back, and the coordinator does not time out on a
commit that was executed) a committed migration is never rolled back: from the
commit on the only steps are the activation and the retirement.
-/

namespace Hataori.Migration

open Hataori.Runtime Hataori.Object Hataori.Object.Store

variable {σ : Type} {w next : World σ}

/-- The coordinator hears about the commit: the authority executes it only while the
    coordinator has not started to roll back, and the coordinator does not give up
    waiting for it once it was executed. -/
def commitHeard (w : World σ) : Action σ → Bool
  | .deliver attempt _ =>
    match w.calls attempt with
    | .sent request => !(request.step == .commit && w.history.gaveUp)
    | _ => true
  | .timeout _ _ => !(w.coordinator.phase == .commit && w.history.committed.isSome)
  | _ => true

/-- The call belongs to a freeze that has not been answered. -/
def CallState.isFreeze : CallState → Bool
  | .queued _ => true
  | .started _ => true
  | .sent request => request.step == .freeze
  | _ => false

/-- Only freezes moved, and none was sent. -/
def FreezeMoves (before after : Nat → CallState) : Prop :=
  ∀ attempt, after attempt = before attempt ∨
    ((before attempt).isFreeze = true ∧ ∀ request, after attempt ≠ .sent request)

theorem FreezeMoves.refl (calls : Nat → CallState) : FreezeMoves calls calls := fun _ => .inl rfl

theorem FreezeMoves.update {calls : Nat → CallState} {attempt : Nat} {state : CallState}
    (hfreeze : (calls attempt).isFreeze = true) (hsent : ∀ request, state ≠ .sent request) :
    FreezeMoves calls (Function.update calls attempt state) := by
  intro other
  rcases eq_or_ne other attempt with rfl | hne
  · rw [Function.update_self]
    exact .inr ⟨hfreeze, hsent⟩
  · rw [Function.update_of_ne hne]
    exact .inl rfl

theorem FreezeMoves.startFreezes {calls : Nat → CallState} (locality : LocalityId)
    {jobs : List (ActionJob Input)}
    (h : ∀ attempt ∈ attemptsOf jobs, (calls attempt).isFreeze = true) :
    FreezeMoves calls (World.startFreezes locality calls jobs) := by
  intro attempt
  by_cases hmem : attempt ∈ attemptsOf jobs
  · rw [startFreezes_of_mem locality calls jobs hmem]
    exact .inr ⟨h attempt hmem, by simp⟩
  · rw [startFreezes_of_notMem locality calls jobs hmem]
    exact .inl rfl

/-- A step that neither moves the coordinator nor executes a migration step. -/
structure Aside (w next : World σ) : Prop where
  plan : next.plan = w.plan
  coordinator : next.coordinator = w.coordinator
  calls : FreezeMoves w.calls next.calls
  committed : next.history.committed = w.history.committed
  installed : next.history.installed = w.history.installed
  gaveUp : next.history.gaveUp = w.history.gaveUp

theorem deliverFreeze_aside {attempt : Nat} {request : Request}
    (hsent : w.calls attempt = .sent request) (hstep : request.step = .freeze)
    (domainAvailable : Bool) : Aside w (w.deliverFreeze attempt request domainAvailable) := by
  have hfreeze : (w.calls attempt).isFreeze = true := by
    rw [hsent]
    simp [CallState.isFreeze, hstep]
  unfold World.deliverFreeze
  simp only
  split
  case h_1 job hok =>
    refine ⟨rfl, rfl, FreezeMoves.startFreezes _ ?_, rfl, rfl, rfl⟩
    have hinput : job.input.attempt? = some attempt := by
      rw [(admitTo_started hok).1]
      rfl
    have hone : attemptsOf [job] = [attempt] := by simp [attemptsOf, hinput]
    rw [hone]
    intro other hmem
    rw [List.mem_singleton.mp hmem]
    exact hfreeze
  case h_2 => exact ⟨rfl, rfl, .update hfreeze (by simp), rfl, rfl, rfl⟩
  case h_3 => exact ⟨rfl, rfl, .update hfreeze (by simp), rfl, rfl, rfl⟩

theorem Base.aside (h : Base w) {action : Action σ} (haction : action.isAside = true)
    (hnext : w.step action = some next) : Aside w next := by
  cases action with
  | tick elapsed =>
    cases hnext
    exact ⟨rfl, rfl, .refl _, rfl, rfl, rfl⟩
  | call locality actionId objectType epoch payload request domain domainAvailable =>
    simp only [World.step, World.deliverCall] at hnext
    split at hnext
    · cases hnext
    case h_2 read placement haccess =>
      split at hnext
      case h_1 job hok =>
        cases hnext
        refine ⟨rfl, rfl, FreezeMoves.startFreezes _ ?_, rfl, rfl, rfl⟩
        have hinput : job.input.attempt? = none := by
          rw [(admitTo_started hok).1]
          rfl
        simp [attemptsOf, hinput]
      case h_2 =>
        cases hnext
        exact ⟨rfl, rfl, .refl _, rfl, rfl, rfl⟩
  | direct locality objectType epoch update =>
    cases hnext
    unfold World.directCall
    simp only
    split
    · exact ⟨rfl, rfl, .refl _, rfl, rfl, rfl⟩
    · exact ⟨rfl, rfl, .refl _, rfl, rfl, rfl⟩
  | retry locality order max available =>
    simp only [World.step] at hnext
    split at hnext
    case isTrue hnodup =>
      cases hnext
      refine ⟨rfl, rfl, FreezeMoves.startFreezes _ ?_, rfl, rfl, rfl⟩
      intro attempt hmem
      obtain ⟨job, hjob, packet, hinput⟩ := mem_attemptsOf.mp hmem
      obtain ⟨object, entry, hentry, hqueue⟩ :=
        ((w.stores locality).retryReady_from order max available).2 job hjob
      have hcall := (h.mailboxes.queued locality object entry hentry job hqueue attempt packet
        hinput).2.1
      rw [hcall]
      rfl
    case isFalse => cases hnext
  | run index contended =>
    simp only [World.step] at hnext
    split at hnext
    case h_1 running hrunning =>
      split at hnext
      · cases hnext
      · cases hnext
        unfold World.runJob
        simp only
        split <;> exact ⟨rfl, rfl, .refl _, rfl, rfl, rfl⟩
    case h_2 => cases hnext
  | finish index =>
    obtain ⟨running, hrunning, rfl⟩ := Option.map_eq_some_iff.mp hnext
    unfold World.finishJob
    simp only
    split
    case h_1 attempt packet hwork =>
      refine ⟨rfl, rfl, .update ?_ (by simp), rfl, rfl, rfl⟩
      rw [(h.mailboxes.started running (List.mem_of_getElem? hrunning) attempt packet hwork).1]
      rfl
    case h_2 => exact ⟨rfl, rfl, .refl _, rfl, rfl, rfl⟩
  | abandon index =>
    simp only [World.step] at hnext
    split at hnext
    case h_1 running hrunning =>
      split at hnext
      case h_1 attempt packet hwork =>
        cases hnext
        refine ⟨rfl, rfl, .update ?_ (by simp), rfl, rfl, rfl⟩
        rw [(h.mailboxes.started running (List.mem_of_getElem? hrunning) attempt packet hwork).1]
        rfl
      case h_2 =>
        cases hnext
        exact ⟨rfl, rfl, .refl _, rfl, rfl, rfl⟩
    case h_2 => cases hnext
  | expire locality order =>
    simp only [World.step] at hnext
    split at hnext
    · cases hnext
      exact ⟨rfl, rfl, .refl _, rfl, rfl, rfl⟩
    · cases hnext
  | _ => cases haction

/-- What the coordinator may still do about a commit. Before it no activation or
    retirement exists; after it nothing else does, and every packet names the
    committed location. -/
structure Decided (w : World σ) : Prop where
  before : w.history.committed = none →
    (∀ attempt request, w.calls attempt = .sent request →
      request.step ≠ .activate ∧ request.step ≠ .retire) ∧
    w.coordinator.phase ≠ .activate ∧ w.coordinator.phase ≠ .retire ∧
    w.history.installed = none ∧
    (w.coordinator.phase = .commit → ∀ packet,
      w.calls w.coordinator.attempt ≠ .answered (.ok packet))
  after : ∀ location, w.history.committed = some location →
    w.history.gaveUp = false ∧
    (w.coordinator.phase = .commit ∨ w.coordinator.phase = .activate ∨
      w.coordinator.phase = .retire ∨ w.coordinator.phase.step = none) ∧
    w.coordinator.packet.fromLocation = location ∧
    (∀ request, w.calls w.coordinator.attempt = .sent request →
      request.step = .activate ∨ request.step = .retire) ∧
    (w.calls w.coordinator.attempt).isFreeze = false ∧
    (∀ reply, w.calls w.coordinator.attempt = .answered reply →
      (w.coordinator.phase = .commit → ∃ packet, reply = .ok packet) ∧
      ∀ packet, reply = .ok packet → packet.fromLocation = location)

theorem Initial.decided (h : Initial w) : Decided w := by
  have hnone : w.history.committed = none := by rw [h.history]; rfl
  obtain ⟨place, hsent⟩ := h.sent
  constructor
  · intro _
    refine ⟨?_, by simp [h.phase], by simp [h.phase], by rw [h.history]; rfl, by simp [h.phase]⟩
    intro attempt request hrequest
    rcases Nat.eq_zero_or_pos attempt with rfl | hpos
    · rw [hsent] at hrequest
      cases hrequest
      simp
    · rw [h.idle attempt hpos] at hrequest
      cases hrequest
  · intro location hsome
    rw [hnone] at hsome
    cases hsome

/-- As long as its latest call is a freeze the coordinator waits for the freeze or
    for nothing. -/
theorem Base.freeze_phase (h : Base w) (hfreeze : (w.calls w.coordinator.attempt).isFreeze = true) :
    w.coordinator.phase.step = none ∨ w.coordinator.phase = .freeze := by
  cases hcall : w.calls w.coordinator.attempt with
  | sent request =>
    rw [hcall] at hfreeze
    exact h.sent_phase hcall (by simpa [CallState.isFreeze] using hfreeze) rfl
  | queued locality => exact h.protocol.freezing locality (.inl hcall)
  | started locality => exact h.protocol.freezing locality (.inr hcall)
  | idle =>
    rw [hcall] at hfreeze
    cases hfreeze
  | answered reply =>
    rw [hcall] at hfreeze
    cases hfreeze
  | gone =>
    rw [hcall] at hfreeze
    cases hfreeze

/-- After a commit no freeze is left anywhere. -/
theorem Decided.no_freeze (hbase : Base w) (h : Decided w) {location : ObjectLocation}
    (hcommitted : w.history.committed = some location) (attempt : Nat) :
    (w.calls attempt).isFreeze = false := by
  obtain ⟨hgave, -, -, -, hfreeze, -⟩ := h.after location hcommitted
  by_cases heq : attempt = w.coordinator.attempt
  · rw [heq]
    exact hfreeze
  · cases hcall : w.calls attempt with
    | idle => rfl
    | gone => rfl
    | answered reply => rfl
    | sent request => exact absurd (hbase.protocol.live_eq hgave (by rw [hcall]; rfl)) heq
    | queued locality => exact absurd (hbase.protocol.live_eq hgave (by rw [hcall]; rfl)) heq
    | started locality => exact absurd (hbase.protocol.live_eq hgave (by rw [hcall]; rfl)) heq

/-- What the coordinator goes on from: the table of calls when it consumes an answer
    or gives up waiting. -/
inductive Resumes (w : World σ) : Reply → (Nat → CallState) → Prop where
  | answer {reply : Reply} (h : w.calls w.coordinator.attempt = .answered reply) :
      Resumes w reply (Function.update w.calls w.coordinator.attempt .gone)
  | timeout (h : w.coordinator.phase = .commit → w.history.committed = none) :
      Resumes w .failed w.calls

theorem Resumes.sent {reply : Reply} {calls : Nat → CallState} (h : Resumes w reply calls)
    {attempt : Nat} {request : Request} (hsent : calls attempt = .sent request) :
    w.calls attempt = .sent request := by
  cases h with
  | timeout => exact hsent
  | answer =>
    rcases eq_or_ne attempt w.coordinator.attempt with rfl | hne
    · rw [Function.update_self] at hsent
      cases hsent
    · rwa [Function.update_of_ne hne] at hsent

/-- The coordinator goes on. -/
theorem Decided.polled (h : Decided w) {reply : Reply} {calls : Nat → CallState}
    (hresumes : Resumes w reply calls) {c' : Coordinator} {request : Option Request}
    (hpolled : Polled w.coordinator reply c' request) (gaveUp : Bool)
    (hgaveUp : gaveUp = (w.history.gaveUp || c'.phase.isRollback)) :
    Decided
      { w with
        coordinator := c'
        calls := withRequest calls c'.attempt request
        history := { w.history with gaveUp := gaveUp } } := by
  have hok : ∀ packet, reply = .ok packet →
      w.calls w.coordinator.attempt = .answered (.ok packet) := by
    intro packet hreply
    cases hresumes with
    | answer hanswered => rw [hanswered, hreply]
    | timeout => cases hreply
  have hlocation : ∀ location, w.history.committed = some location → ∀ packet,
      packet = w.coordinator.packet ∨ reply = .ok packet → packet.fromLocation = location := by
    rintro location hsome packet (rfl | hreply)
    · exact (h.after location hsome).2.2.1
    · exact ((h.after location hsome).2.2.2.2.2 _ (hok packet hreply)).2 packet rfl
  -- a commit leaves the coordinator in one of these phases
  have hphases : ∀ location, w.history.committed = some location →
      w.coordinator.phase = .commit ∨ w.coordinator.phase = .activate ∨
        w.coordinator.phase = .retire ∨ w.coordinator.phase.step = none :=
    fun location hsome => (h.after location hsome).2.1
  have hold : w.history.committed = none → ∀ attempt found, calls attempt = .sent found →
      found.step ≠ .activate ∧ found.step ≠ .retire :=
    fun hnone attempt found hsent => (h.before hnone).1 attempt found (hresumes.sent hsent)
  have hundecided : c'.phase ≠ .activate → c'.phase ≠ .retire →
      (∀ found, request = some found → found.step ≠ .activate ∧ found.step ≠ .retire) →
      (c'.phase = .commit → request ≠ none) → w.history.committed = none →
      (∀ attempt found, withRequest calls c'.attempt request attempt = .sent found →
        found.step ≠ .activate ∧ found.step ≠ .retire) ∧
      c'.phase ≠ .activate ∧ c'.phase ≠ .retire ∧ w.history.installed = none ∧
      (c'.phase = .commit → ∀ packet,
        withRequest calls c'.attempt request c'.attempt ≠ .answered (.ok packet)) := by
    intro hactivate hretire hrequest hcommit hnone
    refine ⟨?_, hactivate, hretire, (h.before hnone).2.2.2.1, ?_⟩
    · intro attempt found hsent
      cases request with
      | none => exact hold hnone attempt found hsent
      | some new =>
        simp only [withRequest] at hsent
        rcases eq_or_ne attempt c'.attempt with rfl | hne
        · rw [Function.update_self, CallState.sent.injEq] at hsent
          rw [← hsent]
          exact hrequest new rfl
        · rw [Function.update_of_ne hne] at hsent
          exact hold hnone attempt found hsent
    · intro hphase packet
      cases request with
      | none => exact absurd rfl (hcommit hphase)
      | some new => simp [withRequest]
  have hcontra : ∀ location, w.history.committed = some location →
      w.coordinator.phase ≠ .freeze ∧ w.coordinator.phase ≠ .prepare ∧
        w.coordinator.phase.isRollback = false := by
    intro location hsome
    rcases hphases location hsome with hphase | hphase | hphase | hphase
    · simp [hphase, Phase.isRollback]
    · simp [hphase, Phase.isRollback]
    · simp [hphase, Phase.isRollback]
    · cases hc : w.coordinator.phase <;> simp_all [Phase.step, Phase.isRollback]
  cases hpolled with
  | rest result hphase =>
    refine ⟨hundecided (by simp [hphase]) (by simp [hphase]) (by simp) (by simp [hphase]), ?_⟩
    intro location hsome
    obtain ⟨hgave, -, hpacket, hsent, hfreeze, hanswer⟩ := h.after location hsome
    refine ⟨by simp [hgaveUp, hgave, hphase, Phase.isRollback], .inr (.inr (.inr (by simp [hphase,
      Phase.step]))), hpacket, fun found hfound => hsent found (hresumes.sent hfound), ?_, ?_⟩
    · cases hresumes with
      | answer => simp [withRequest, CallState.isFreeze]
      | timeout => exact hfreeze
    · intro reply' hreply'
      cases hresumes with
      | answer => simp [withRequest] at hreply'
      | timeout => exact hanswer reply' hreply'
  | done _ result hphase hattempt horiginal hpacket =>
    refine ⟨hundecided (by simp [hphase]) (by simp [hphase]) (by simp) (by simp [hphase]), ?_⟩
    intro location hsome
    obtain ⟨hgave, -, -, hsent, hfreeze, hanswer⟩ := h.after location hsome
    have hdone : c'.phase.step = none := by rw [hphase]; rfl
    refine ⟨by simp [hgaveUp, hgave, hphase, Phase.isRollback], .inr (.inr (.inr hdone)),
      hlocation location hsome _ hpacket, ?_, ?_, ?_⟩
    · intro found hfound
      exact hsent found (hresumes.sent (hattempt ▸ hfound))
    · simp only [withRequest, hattempt]
      cases hresumes with
      | answer => simp [CallState.isFreeze]
      | timeout => exact hfreeze
    · intro reply' hreply'
      simp only [withRequest, hattempt] at hreply'
      cases hresumes with
      | answer => simp at hreply'
      | timeout =>
        refine ⟨fun hcommit => ?_, (hanswer reply' hreply').2⟩
        rw [hphase] at hcommit
        cases hcommit
  | stranded _ location result hbefore hreply hphase hattempt hpacket =>
    refine ⟨hundecided (by simp [hphase]) (by simp [hphase]) (by simp) (by simp [hphase]), ?_⟩
    intro location hsome
    exact absurd hbefore (hcontra location hsome).1
  | rollbackSource _ destination hphase hattempt hpacket hcommit hbefore =>
    refine ⟨hundecided (by simp [hphase]) (by simp [hphase]) (by simp) (by simp [hphase]), ?_⟩
    intro location hsome
    rcases hbefore with hbefore | hbefore | hbefore
    · exact absurd hbefore (hcontra location hsome).1
    · exact absurd hbefore (hcontra location hsome).2.1
    · cases hresumes with
      | answer hanswered =>
        obtain ⟨packet, hreply⟩ := ((h.after location hsome).2.2.2.2.2 _ hanswered).1 hbefore
        exact absurd hreply (hcommit hbefore packet)
      | timeout hheard =>
        rw [hheard hbefore] at hsome
        cases hsome
  | rollbackDestination _ hbefore hphase hattempt hpacket =>
    refine ⟨hundecided (by simp [hphase]) (by simp [hphase]) (by simp) (by simp [hphase]), ?_⟩
    intro location hsome
    have hnot := (hcontra location hsome).2.2
    rw [hbefore] at hnot
    cases hnot
  | redirect _ location hbefore hreply hphase hattempt hpacket =>
    refine ⟨hundecided (by simp [hphase]) (by simp [hphase]) (by simp) (by simp [hphase]), ?_⟩
    intro location hsome
    exact absurd hbefore (hcontra location hsome).1
  | prepare _ hbefore hreply hphase hattempt horiginal =>
    refine ⟨hundecided (by simp [hphase]) (by simp [hphase]) (by simp) (by simp [hphase]), ?_⟩
    intro location hsome
    exact absurd hbefore (hcontra location hsome).1
  | commit _ hbefore hreply hphase hattempt horiginal =>
    refine ⟨hundecided (by simp [hphase]) (by simp [hphase]) (by simp) (by simp), ?_⟩
    intro location hsome
    exact absurd hbefore (hcontra location hsome).2.1
  | activate _ hbefore hreply hphase hattempt horiginal =>
    constructor
    · intro hnone
      exact absurd (hok _ hreply) ((h.before hnone).2.2.2.2 hbefore _)
    · intro location hsome
      refine ⟨by simp [hgaveUp, (h.after location hsome).1, hphase, Phase.isRollback],
        .inr (.inl hphase), hlocation location hsome _ (.inr hreply), ?_, ?_, ?_⟩
      · intro found hfound
        simp only [withRequest, Function.update_self, CallState.sent.injEq] at hfound
        rw [← hfound]
        exact .inl rfl
      · simp [withRequest, CallState.isFreeze]
      · simp [withRequest]
  | retire _ hbefore hreply hphase hattempt horiginal hmoved =>
    constructor
    · intro hnone
      exact absurd hbefore (h.before hnone).2.1
    · intro location hsome
      refine ⟨by simp [hgaveUp, (h.after location hsome).1, hphase, Phase.isRollback],
        .inr (.inr (.inl hphase)), hlocation location hsome _ (.inr hreply), ?_, ?_, ?_⟩
      · intro found hfound
        simp only [withRequest, Function.update_self, CallState.sent.injEq] at hfound
        rw [← hfound]
        exact .inr rfl
      · simp [withRequest, CallState.isFreeze]
      · simp [withRequest]

/-- A step is executed where it arrives; a commit only if the coordinator can still
    hear of it. -/
theorem Decided.deliverStep (hbase : Base w) (h : Decided w) {attempt : Nat} {request : Request}
    (hsent : w.calls attempt = .sent request)
    (hheard : request.step = .commit → w.history.gaveUp = false) :
    Decided (w.deliverStep attempt request) := by
  have hlive : (w.calls attempt).live = true := by rw [hsent]; rfl
  unfold World.deliverStep
  simp only
  generalize hresult : World.execute (w.stores request.place.locality) request.step request.packet
    w.now = result
  have hanswer : ∀ packet, result.1 = .ok packet → request.step ≠ .prepare →
      packet = request.packet := by
    intro packet hok hprepare
    rw [← hresult] at hok
    exact execute_packet hok hprepare
  have hphase : attempt = w.coordinator.attempt → w.coordinator.phase = .commit →
      request.step = .commit := by
    intro heq hcommit
    rcases (hbase.protocol.latest request (heq ▸ hsent)).phase with hnone | hsome
    · rw [hcommit] at hnone
      cases hnone
    · rw [hcommit] at hsome
      exact (Option.some.inj hsome).symm
  have hsentOf : ∀ other found, Function.update w.calls attempt (.answered (.ofResult result.1))
      other = .sent found → w.calls other = .sent found := by
    intro other found hfound
    rcases eq_or_ne other attempt with rfl | hne
    · rw [Function.update_self] at hfound
      cases hfound
    · rwa [Function.update_of_ne hne] at hfound
  cases hcommitted : w.history.committed with
  | some location =>
    obtain ⟨hgave, hphases, hpacket, hsteps, hfreeze, hanswers⟩ := h.after location hcommitted
    have heq : attempt = w.coordinator.attempt := hbase.protocol.live_eq hgave hlive
    subst heq
    have hkind := hsteps request hsent
    have hrecord : (World.record w.history (w.stores request.place.locality) request.step
        request.packet result.1).committed = some location ∧
        (World.record w.history (w.stores request.place.locality) request.step request.packet
          result.1).gaveUp = false := by
      unfold World.record
      rcases hkind with hkind | hkind <;> rw [hkind] <;> split <;>
        exact ⟨hcommitted, hgave⟩
    constructor
    · intro hnone
      rw [hrecord.1] at hnone
      cases hnone
    · intro found hfound
      rw [hrecord.1] at hfound
      cases hfound
      refine ⟨hrecord.2, hphases, hpacket, ?_, ?_, ?_⟩
      · intro found hfound
        exact hsteps found (hsentOf _ _ hfound)
      · simp [World.setCall, CallState.isFreeze, World.setStore]
      · intro reply hreply
        simp only [World.setCall, World.setStore, Function.update_self,
          CallState.answered.injEq] at hreply
        subst hreply
        refine ⟨fun hcommit => ?_, ?_⟩
        · rw [hphase rfl hcommit] at hkind
          rcases hkind with hkind | hkind <;> cases hkind
        · intro packet hpacketOk
          have hok : result.1 = .ok packet := by
            cases hr : result.1 with
            | error error =>
              rw [hr] at hpacketOk
              cases hpacketOk
            | ok found =>
              rw [hr] at hpacketOk
              cases hpacketOk
              rfl
          have hprepare : request.step ≠ .prepare := by
            rcases hkind with hkind | hkind <;> rw [hkind] <;> simp
          rw [hanswer packet hok hprepare, (hbase.protocol.latest request hsent).packet, hpacket]
  | none =>
    obtain ⟨hsteps, hactivate, hretire, hinstalled, hanswers⟩ := h.before hcommitted
    obtain ⟨hnotActivate, hnotRetire⟩ := hsteps attempt request hsent
    by_cases hsucceeds : request.step = .commit ∧ ∃ packet, result.1 = .ok packet
    · obtain ⟨hkind, packet, hok⟩ := hsucceeds
      have hgave := hheard hkind
      have heq : attempt = w.coordinator.attempt := hbase.protocol.live_eq hgave hlive
      subst heq
      have hlatest := hbase.protocol.latest request hsent
      have hsame : packet = request.packet := hanswer packet hok (by rw [hkind]; simp)
      have hrecord : World.record w.history (w.stores request.place.locality) request.step
          request.packet result.1 = { w.history with committed := some packet.fromLocation } := by
        simp [World.record, hok, hkind]
      rw [hrecord]
      constructor
      · intro hnone
        cases hnone
      · intro location hlocation
        cases hlocation
        refine ⟨hgave, ?_, by rw [hsame, hlatest.packet]; rfl, ?_, ?_, ?_⟩
        · rcases hlatest.phase with hdone | hsome
          · exact .inr (.inr (.inr hdone))
          · refine .inl ?_
            rw [hkind] at hsome
            change w.coordinator.phase = .commit
            cases hc : w.coordinator.phase <;> simp_all [Phase.step]
        · intro found hfound
          simp [World.setCall, World.setStore] at hfound
        · simp [World.setCall, World.setStore, CallState.isFreeze]
        · intro reply hreply
          simp only [World.setCall, World.setStore, Function.update_self,
            CallState.answered.injEq] at hreply
          subst hreply
          rw [hok]
          refine ⟨fun _ => ⟨packet, rfl⟩, ?_⟩
          intro found hfound
          cases hfound
          rfl
    · have hrecord : World.record w.history (w.stores request.place.locality) request.step
          request.packet result.1 = w.history := by
        unfold World.record
        cases hr : result.1 with
        | error error => rfl
        | ok packet =>
          cases hkind : request.step with
          | commit => exact absurd ⟨hkind, packet, hr⟩ hsucceeds
          | activate => exact absurd hkind hnotActivate
          | _ => rfl
      rw [hrecord]
      constructor
      · intro _
        refine ⟨fun other found hfound => hsteps other found (hsentOf other found hfound), hactivate,
          hretire, hinstalled, ?_⟩
        intro hcommit packet
        by_cases heq : attempt = w.coordinator.attempt
        · have hkind := hphase heq hcommit
          have herror : ∀ found, result.1 ≠ .ok found := fun found hok =>
            hsucceeds ⟨hkind, found, hok⟩
          simp only [World.setCall, World.setStore, heq, Function.update_self, ne_eq,
            CallState.answered.injEq]
          cases hr : result.1 with
          | error error => simp [Reply.ofResult]
          | ok found => exact absurd hr (herror found)
        · simp only [World.setCall, World.setStore, Function.update_of_ne (Ne.symm heq)]
          exact hanswers hcommit packet
      · intro location hlocation
        rw [hcommitted] at hlocation
        cases hlocation

/-- A call is refused or lost. -/
theorem Decided.forget (h : Decided w) {attempt : Nat} {state : CallState}
    (hstate : state = .gone ∨ (state = .answered .failed ∧
      ∃ request, w.calls attempt = .sent request ∧
        (attempt = w.coordinator.attempt → Latest w.plan w.coordinator request))) :
    Decided (w.setCall attempt state) := by
  have hsent : ∀ other request, Function.update w.calls attempt state other = .sent request →
      w.calls other = .sent request := by
    intro other request hrequest
    rcases eq_or_ne other attempt with rfl | hne
    · rw [Function.update_self] at hrequest
      rcases hstate with rfl | ⟨rfl, -⟩ <;> cases hrequest
    · rwa [Function.update_of_ne hne] at hrequest
  constructor
  · intro hnone
    obtain ⟨hsteps, hactivate, hretire, hinstalled, hanswers⟩ := h.before hnone
    refine ⟨fun other request hrequest => hsteps other request (hsent other request hrequest),
      hactivate, hretire, hinstalled, ?_⟩
    intro hcommit packet hpacket
    change Function.update w.calls attempt state w.coordinator.attempt = _ at hpacket
    rcases eq_or_ne w.coordinator.attempt attempt with heq | hne
    · rw [heq, Function.update_self] at hpacket
      rcases hstate with rfl | ⟨rfl, -⟩ <;> cases hpacket
    · rw [Function.update_of_ne hne] at hpacket
      exact hanswers hcommit packet hpacket
  · intro location hsome
    obtain ⟨hgave, hphases, hpacket, hsteps, hfreeze, hanswers⟩ := h.after location hsome
    refine ⟨hgave, hphases, hpacket, fun request hrequest => hsteps request (hsent _ _ hrequest),
      ?_, ?_⟩
    · change (Function.update w.calls attempt state w.coordinator.attempt).isFreeze = false
      rcases eq_or_ne w.coordinator.attempt attempt with heq | hne
      · rw [heq, Function.update_self]
        rcases hstate with rfl | ⟨rfl, -⟩ <;> rfl
      · rw [Function.update_of_ne hne]
        exact hfreeze
    · intro reply hreply
      change Function.update w.calls attempt state w.coordinator.attempt = _ at hreply
      rcases eq_or_ne w.coordinator.attempt attempt with heq | hne
      · rw [heq, Function.update_self] at hreply
        rcases hstate with rfl | ⟨rfl, request, hrequest, hlatest⟩
        · cases hreply
        · cases hreply
          refine ⟨fun hcommit => ?_, by simp⟩
          -- a commit that is still on its way has not been executed
          have hkind := hsteps request (heq ▸ hrequest)
          rcases (hlatest heq.symm).phase with hdone | hphase
          · rw [show w.coordinator.phase = .commit from hcommit] at hdone
            cases hdone
          · rw [show w.coordinator.phase = .commit from hcommit] at hphase
            rcases hkind with hkind | hkind <;> rw [hkind] at hphase <;> cases hphase
      · rw [Function.update_of_ne hne] at hreply
        exact hanswers reply hreply

theorem Decided.aside (hbase : Base w) (h : Decided w) (haside : Aside w next) :
    Decided next := by
  constructor
  · intro hnone
    rw [haside.committed] at hnone
    obtain ⟨hsteps, hactivate, hretire, hinstalled, hanswer⟩ := h.before hnone
    rw [haside.coordinator, haside.installed]
    refine ⟨?_, hactivate, hretire, hinstalled, ?_⟩
    · intro attempt request hrequest
      rcases haside.calls attempt with hsame | ⟨-, hnot⟩
      · exact hsteps attempt request (hsame ▸ hrequest)
      · exact absurd hrequest (hnot request)
    · intro hphase packet
      rcases haside.calls w.coordinator.attempt with hsame | ⟨hfreeze, -⟩
      · rw [hsame]
        exact hanswer hphase packet
      · rcases hbase.freeze_phase hfreeze with hdone | heq
        · rw [hphase] at hdone
          cases hdone
        · rw [hphase] at heq
          cases heq
  · intro location hsome
    rw [haside.committed] at hsome
    have hafter := h.after location hsome
    have hsame : next.calls w.coordinator.attempt = w.calls w.coordinator.attempt := by
      rcases haside.calls w.coordinator.attempt with hsame | ⟨hfreeze, -⟩
      · exact hsame
      · rw [h.no_freeze hbase hsome] at hfreeze
        cases hfreeze
    rw [haside.coordinator, haside.gaveUp, hsame]
    exact hafter

/-- The coordinator's steps: an answer it waits for, a timeout or a late answer. -/
theorem Decided.resumed (h : Decided w) {reply : Reply} {calls : Nat → CallState}
    (hresumes : Resumes w reply calls) (sent rollbackSent : Bool) :
    Decided ({ w with calls := calls }.proceed reply sent rollbackSent) := by
  rw [proceed_eq]
  exact h.polled hresumes (w.coordinator.poll_polled w.maxRedirects reply sent rollbackSent) _ rfl

theorem Decided.drop (h : Decided w) :
    Decided { w with coordinator := { w.coordinator with phase := .done .dropped } } := by
  constructor
  · intro hnone
    obtain ⟨hsteps, -, -, hinstalled, -⟩ := h.before hnone
    exact ⟨hsteps, by simp, by simp, hinstalled, by simp⟩
  · intro location hsome
    obtain ⟨hgave, -, hpacket, hsteps, hfreeze, hanswers⟩ := h.after location hsome
    exact ⟨hgave, .inr (.inr (.inr rfl)), hpacket, hsteps, hfreeze,
      fun reply hreply => ⟨by simp, (hanswers reply hreply).2⟩⟩

/-- One step whose coordinator hears about the commit. -/
theorem Decided.step (hbase : Base w) (h : Decided w) {action : Action σ}
    (hheard : commitHeard w action = true) (hnext : w.step action = some next) :
    Decided next := by
  cases w.step_stepped hnext with
  | aside haside => exact h.aside hbase (hbase.aside haside hnext)
  | freeze domainAvailable hsent hstep =>
    exact h.aside hbase (deliverFreeze_aside hsent hstep domainAvailable)
  | execute domainAvailable hsent hstep =>
    refine h.deliverStep hbase hsent fun hcommit => ?_
    simpa [commitHeard, hsent, hcommit] using hheard
  | refuse hsent =>
    exact h.forget (.inr ⟨rfl, _, hsent, fun heq => hbase.protocol.latest _ (heq ▸ hsent)⟩)
  | lose => exact h.forget (.inl rfl)
  | observe sent rollbackSent hanswered => exact h.resumed (.answer hanswered) sent rollbackSent
  | timeout sent rollbackSent =>
    refine h.resumed (.timeout fun hcommit => ?_) sent rollbackSent
    simpa [commitHeard, hcommit] using hheard
  | drop => exact h.drop

end Hataori.Migration
