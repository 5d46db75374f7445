import Hataori.Migration.World

/-!
# The coordinator and its outstanding step

As long as the coordinator has not started to roll back it has at most one step
outstanding, the one its phase waits for. The invariant is about the coordinator
and the table of its calls only; the stores come in later.
-/

namespace Hataori.Migration

open Hataori.Runtime Hataori.Object

/-! ### The kinds of steps -/

/-- Actions of the stores and the calls. -/
def Action.isAside : Action σ → Bool
  | .tick _ => true
  | .call .. => true
  | .direct .. => true
  | .retry .. => true
  | .run .. => true
  | .finish _ => true
  | .abandon _ => true
  | .expire .. => true
  | _ => false

/-- The kinds of steps, with what each makes of the world. -/
inductive Stepped {σ : Type} (w : World σ) : Action σ → World σ → Prop where
  | aside {action : Action σ} {next : World σ} (haside : action.isAside = true) :
      Stepped w action next
  | freeze {attempt : Nat} {request : Request} (domainAvailable : Bool)
      (hsent : w.calls attempt = .sent request) (hstep : request.step = .freeze) :
      Stepped w (.deliver attempt domainAvailable) (w.deliverFreeze attempt request domainAvailable)
  | execute {attempt : Nat} {request : Request} (domainAvailable : Bool)
      (hsent : w.calls attempt = .sent request) (hstep : request.step ≠ .freeze) :
      Stepped w (.deliver attempt domainAvailable) (w.deliverStep attempt request)
  | refuse {attempt : Nat} {request : Request} (hsent : w.calls attempt = .sent request) :
      Stepped w (.refuse attempt) (w.setCall attempt (.answered .failed))
  | lose {action : Action σ} {attempt : Nat}
      (hlive : (∃ request, w.calls attempt = .sent request) ∨
        ∃ reply, w.calls attempt = .answered reply) :
      Stepped w action (w.setCall attempt .gone)
  | observe {reply : Reply} (sent rollbackSent : Bool)
      (hanswered : w.calls w.coordinator.attempt = .answered reply) :
      Stepped w (.observe w.coordinator.attempt sent rollbackSent)
        ((w.setCall w.coordinator.attempt .gone).proceed reply sent rollbackSent)
  | timeout (sent rollbackSent : Bool) :
      Stepped w (.timeout sent rollbackSent) (w.proceed .failed sent rollbackSent)
  | drop :
      Stepped w .drop { w with coordinator := { w.coordinator with phase := .done .dropped } }

theorem World.step_stepped {σ : Type} (w : World σ) {action : Action σ} {next : World σ}
    (hnext : w.step action = some next) : Stepped w action next := by
  by_cases haside : action.isAside = true
  · exact .aside haside
  cases action with
  | deliver attempt domainAvailable =>
    simp only [World.step] at hnext
    split at hnext
    case h_1 request hsent =>
      split at hnext
      case h_1 hstep =>
        cases hnext
        exact .freeze domainAvailable hsent hstep
      case h_2 hstep =>
        cases hnext
        exact .execute domainAvailable hsent hstep
    case h_2 => cases hnext
  | refuse attempt =>
    simp only [World.step] at hnext
    split at hnext
    case h_1 request hsent =>
      cases hnext
      exact .refuse hsent
    case h_2 => cases hnext
  | lose attempt =>
    simp only [World.step] at hnext
    split at hnext
    case h_1 request hsent =>
      cases hnext
      exact .lose (.inl ⟨request, hsent⟩)
    case h_2 reply hanswered =>
      cases hnext
      exact .lose (.inr ⟨reply, hanswered⟩)
    case h_3 => cases hnext
  | observe attempt sent rollbackSent =>
    simp only [World.step] at hnext
    split at hnext
    case h_1 reply hanswered =>
      change (if attempt = w.coordinator.attempt then some _ else some _) = some next at hnext
      split at hnext
      case isTrue heq =>
        cases hnext
        subst heq
        exact .observe sent rollbackSent hanswered
      case isFalse =>
        cases hnext
        exact .lose (.inr ⟨reply, hanswered⟩)
    case h_2 => cases hnext
  | timeout sent rollbackSent =>
    cases hnext
    exact .timeout sent rollbackSent
  | drop =>
    simp only [World.step] at hnext
    split at hnext
    · cases hnext
    · cases hnext
      exact .drop
  | _ => exact absurd rfl haside

/-! ### The invariant -/

/-- The packet belongs to the migration. -/
structure Ours (plan packet : MigrationPacket) : Prop where
  object : packet.object = plan.object
  migration : packet.migration = plan.migration
  objectType : packet.objectType = plan.objectType
  authority : packet.authority = plan.authority
  destination : packet.destination = plan.destination

theorem Ours.relocated {plan packet : MigrationPacket} (h : Ours plan packet)
    (location : ObjectLocation) : Ours plan { packet with fromLocation := location } :=
  ⟨h.object, h.migration, h.objectType, h.authority, h.destination⟩

/-- The step a phase waits for. -/
def Phase.step : Phase → Option Step
  | .freeze => some .freeze
  | .prepare => some .prepare
  | .commit => some .commit
  | .activate => some .activate
  | .retire => some .retire
  | .rollbackSource _ => some .rollback
  | .rollbackDestination => some .rollback
  | .done _ => none

/-- A reply carries a packet of the migration, if any. -/
def Reply.OursIn (plan : MigrationPacket) (reply : Reply) : Prop :=
  ∀ packet, reply = .ok packet → Ours plan packet

/-- The latest request is the one the coordinator made from its own packet. -/
structure Latest (plan : MigrationPacket) (c : Coordinator) (request : Request) : Prop where
  phase : c.phase.step = none ∨ c.phase.step = some request.step
  packet : request.packet = c.packet
  destination : request.step = .prepare ∨ request.step = .activate →
    request.place = plan.destination
  source : request.step = .retire → request.place = c.original.place ∧
    c.original.locality ≠ request.packet.fromLocation.locality

/-- The coordinator and its calls. -/
structure Protocol (plan : MigrationPacket) (c : Coordinator) (calls : Nat → CallState)
    (gaveUp : Bool) : Prop where
  packet : Ours plan c.packet
  fresh : ∀ attempt, c.attempt < attempt → calls attempt = .idle
  past : gaveUp = false → ∀ attempt, attempt < c.attempt → calls attempt = .gone
  latest : ∀ request, calls c.attempt = .sent request → Latest plan c request
  freezing : ∀ locality, calls c.attempt = .queued locality ∨ calls c.attempt = .started locality →
    c.phase.step = none ∨ c.phase = .freeze
  ours : ∀ attempt request, calls attempt = .sent request → Ours plan request.packet
  answers : ∀ attempt reply, calls attempt = .answered reply → reply.OursIn plan
  rollback : c.phase.isRollback = true → gaveUp = true
  rollbackSent : ∀ attempt request, calls attempt = .sent request → request.step = .rollback →
    gaveUp = true

variable {plan : MigrationPacket} {c : Coordinator} {calls : Nat → CallState} {gaveUp : Bool}

/-- The call is somewhere between its request and the use of its answer. -/
def CallState.live : CallState → Bool
  | .idle => false
  | .gone => false
  | _ => true

/-- Before a rollback only the latest call is live. -/
theorem Protocol.live_eq (h : Protocol plan c calls gaveUp) (hgave : gaveUp = false) {attempt : Nat}
    (hlive : (calls attempt).live = true) : attempt = c.attempt := by
  by_contra hne
  rcases Nat.lt_or_gt_of_ne hne with hlt | hgt
  · rw [h.past hgave attempt hlt] at hlive
    cases hlive
  · rw [h.fresh attempt hgt] at hlive
    cases hlive

/-- A live call moves on to any state but a request. -/
theorem Protocol.move (h : Protocol plan c calls gaveUp) {attempt : Nat} {state : CallState}
    (hlive : (calls attempt).live = true) (hsent : ∀ request, state ≠ .sent request)
    (hfreeze : ∀ locality, state = .queued locality ∨ state = .started locality →
      attempt = c.attempt → c.phase.step = none ∨ c.phase = .freeze)
    (hanswer : ∀ reply, state = .answered reply → reply.OursIn plan) :
    Protocol plan c (Function.update calls attempt state) gaveUp where
  packet := h.packet
  fresh := by
    intro other hlt
    rcases eq_or_ne other attempt with rfl | hne
    · rw [h.fresh other hlt] at hlive
      cases hlive
    · rw [Function.update_of_ne hne]
      exact h.fresh other hlt
  past := by
    intro hgave other hlt
    rcases eq_or_ne other attempt with rfl | hne
    · rw [h.past hgave other hlt] at hlive
      cases hlive
    · rw [Function.update_of_ne hne]
      exact h.past hgave other hlt
  latest := by
    intro request hrequest
    rcases eq_or_ne c.attempt attempt with heq | hne
    · subst heq
      rw [Function.update_self] at hrequest
      exact absurd hrequest (hsent request)
    · rw [Function.update_of_ne hne] at hrequest
      exact h.latest request hrequest
  freezing := by
    intro locality hcase
    rcases eq_or_ne c.attempt attempt with heq | hne
    · subst heq
      rw [Function.update_self] at hcase
      exact hfreeze locality hcase rfl
    · rw [Function.update_of_ne hne] at hcase
      exact h.freezing locality hcase
  ours := by
    intro other request hrequest
    rcases eq_or_ne other attempt with rfl | hne
    · rw [Function.update_self] at hrequest
      exact absurd hrequest (hsent request)
    · rw [Function.update_of_ne hne] at hrequest
      exact h.ours other request hrequest
  answers := by
    intro other reply hreply
    rcases eq_or_ne other attempt with rfl | hne
    · rw [Function.update_self] at hreply
      exact hanswer reply hreply
    · rw [Function.update_of_ne hne] at hreply
      exact h.answers other reply hreply
  rollback := h.rollback
  rollbackSent := by
    intro other request hrequest
    rcases eq_or_ne other attempt with rfl | hne
    · rw [Function.update_self] at hrequest
      exact absurd hrequest (hsent request)
    · rw [Function.update_of_ne hne] at hrequest
      exact h.rollbackSent other request hrequest

/-- The future resolves or is dropped; its outstanding call stays where it is. -/
theorem Protocol.finish (h : Protocol plan c calls gaveUp) (packet : MigrationPacket)
    (hpacket : Ours plan packet) (hsame : (∃ request, calls c.attempt = .sent request) →
      packet = c.packet) {c' : Coordinator} (result : Result)
    (hc' : c'.phase = .done result) (hattempt : c'.attempt = c.attempt)
    (hc'packet : c'.packet = packet) (horiginal : c'.original = c.original) :
    Protocol plan c' calls gaveUp where
  packet := hc'packet ▸ hpacket
  fresh := hattempt ▸ h.fresh
  past := hattempt ▸ h.past
  latest := by
    intro request hrequest
    rw [hattempt] at hrequest
    have hlatest := h.latest request hrequest
    refine ⟨.inl (by rw [hc']; rfl), ?_, hlatest.destination, ?_⟩
    · rw [hlatest.packet, hc'packet, hsame ⟨request, hrequest⟩]
    · rw [horiginal]
      exact hlatest.source
  freezing := fun _ _ => .inl (by rw [hc']; rfl)
  ours := h.ours
  answers := h.answers
  rollback := by
    rw [hc']
    intro hfalse
    cases hfalse
  rollbackSent := h.rollbackSent

/-- The coordinator submits its next step. Before a rollback the previous call is
    consumed. -/
theorem Protocol.submit (h : Protocol plan c calls gaveUp) {c' : Coordinator} {request : Request}
    {gaveUp' : Bool} (hgave : gaveUp = true → gaveUp' = true)
    (hconsumed : gaveUp' = false → calls c.attempt = .gone)
    (hattempt : c'.attempt = c.attempt + 1) (hpacket : Ours plan c'.packet)
    (hlatest : Latest plan c' request)
    (hrollback : c'.phase.isRollback = true ∨ request.step = .rollback → gaveUp' = true) :
    Protocol plan c' (Function.update calls c'.attempt (.sent request)) gaveUp' where
  packet := hpacket
  fresh := by
    intro other hlt
    rw [Function.update_of_ne (by omega)]
    exact h.fresh other (by omega)
  past := by
    intro hnot other hlt
    rw [Function.update_of_ne (by omega)]
    have hnot' : gaveUp = false := by
      cases hg : gaveUp with
      | false => rfl
      | true => rw [hgave hg] at hnot; cases hnot
    rcases Nat.lt_or_ge other c.attempt with hless | hge
    · exact h.past hnot' other hless
    · have heq : other = c.attempt := by omega
      rw [heq]
      exact hconsumed hnot
  latest := by
    intro other hother
    rw [Function.update_self] at hother
    cases hother
    exact hlatest
  freezing := by
    intro locality hcase
    rw [Function.update_self] at hcase
    rcases hcase with hcase | hcase <;> cases hcase
  ours := by
    intro other found hfound
    rcases eq_or_ne other c'.attempt with rfl | hne
    · rw [Function.update_self] at hfound
      cases hfound
      rw [hlatest.packet]
      exact hpacket
    · rw [Function.update_of_ne hne] at hfound
      exact h.ours other found hfound
  answers := by
    intro other reply hreply
    rcases eq_or_ne other c'.attempt with rfl | hne
    · rw [Function.update_self] at hreply
      cases hreply
    · rw [Function.update_of_ne hne] at hreply
      exact h.answers other reply hreply
  rollback := fun hphase => hrollback (.inl hphase)
  rollbackSent := by
    intro other found hfound hstep
    rcases eq_or_ne other c'.attempt with rfl | hne
    · rw [Function.update_self] at hfound
      cases hfound
      exact hrollback (.inr hstep)
    · rw [Function.update_of_ne hne] at hfound
      exact hgave (h.rollbackSent other found hfound hstep)

/-- Every way the coordinator goes on with a reply. -/
inductive Polled (c : Coordinator) (reply : Reply) : Coordinator → Option Request → Prop where
  | rest (result : Result) (hphase : c.phase = .done result) : Polled c reply c none
  | done (c' : Coordinator) (result : Result) (hphase : c'.phase = .done result)
      (hattempt : c'.attempt = c.attempt) (horiginal : c'.original = c.original)
      (hpacket : c'.packet = c.packet ∨ reply = .ok c'.packet) : Polled c reply c' none
  | stranded (c' : Coordinator) (location : ObjectLocation) (result : Result)
      (hbefore : c.phase = .freeze) (hreply : reply = .moved c.packet.object location)
      (hphase : c'.phase = .done result) (hattempt : c'.attempt = c.attempt)
      (hpacket : c'.packet = { c.packet with fromLocation := location }) : Polled c reply c' none
  | rollbackSource (c' : Coordinator) (destination : Bool)
      (hphase : c'.phase = .rollbackSource destination) (hattempt : c'.attempt = c.attempt + 1)
      (hpacket : c'.packet = c.packet ∨ reply = .ok c'.packet)
      (hcommit : c.phase = .commit → ∀ packet, reply ≠ .ok packet)
      (hbefore : c.phase = .freeze ∨ c.phase = .prepare ∨ c.phase = .commit) :
      Polled c reply c' (some ⟨.rollback, c.original.place, c'.packet⟩)
  | rollbackDestination (c' : Coordinator) (hbefore : c.phase = .rollbackSource true)
      (hphase : c'.phase = .rollbackDestination) (hattempt : c'.attempt = c.attempt + 1)
      (hpacket : c'.packet = c.packet) :
      Polled c reply c' (some ⟨.rollback, c.packet.destination, c'.packet⟩)
  | redirect (c' : Coordinator) (location : ObjectLocation) (hbefore : c.phase = .freeze)
      (hreply : reply = .moved c.packet.object location) (hphase : c'.phase = .freeze)
      (hattempt : c'.attempt = c.attempt + 1)
      (hpacket : c'.packet = { c.packet with fromLocation := location }) :
      Polled c reply c' (some ⟨.freeze, location.place, c'.packet⟩)
  | prepare (c' : Coordinator) (hbefore : c.phase = .freeze) (hreply : reply = .ok c'.packet)
      (hphase : c'.phase = .prepare) (hattempt : c'.attempt = c.attempt + 1)
      (horiginal : c'.original = c.original) :
      Polled c reply c' (some ⟨.prepare, c'.packet.destination, c'.packet⟩)
  | commit (c' : Coordinator) (hbefore : c.phase = .prepare) (hreply : reply = .ok c'.packet)
      (hphase : c'.phase = .commit) (hattempt : c'.attempt = c.attempt + 1)
      (horiginal : c'.original = c.original) :
      Polled c reply c' (some ⟨.commit, c.authority, c'.packet⟩)
  | activate (c' : Coordinator) (hbefore : c.phase = .commit) (hreply : reply = .ok c'.packet)
      (hphase : c'.phase = .activate) (hattempt : c'.attempt = c.attempt + 1)
      (horiginal : c'.original = c.original) :
      Polled c reply c' (some ⟨.activate, c'.packet.destination, c'.packet⟩)
  | retire (c' : Coordinator) (hbefore : c.phase = .activate) (hreply : reply = .ok c'.packet)
      (hphase : c'.phase = .retire) (hattempt : c'.attempt = c.attempt + 1)
      (horiginal : c'.original = c.original)
      (hmoved : c'.original.locality ≠ c'.packet.fromLocation.locality) :
      Polled c reply c' (some ⟨.retire, c'.original.place, c'.packet⟩)

theorem Coordinator.finish_polled (c : Coordinator) (reply : Reply) (result : Result) :
    Polled c reply (c.finish result).1 (c.finish result).2 :=
  .done _ result rfl rfl rfl (.inl rfl)

/-- `start_rollback` from a coordinator that may already have taken the packet of the
    reply. -/
theorem Coordinator.startRollback_polled {c taken : Coordinator} {reply : Reply}
    (destination sent : Bool) (hattempt : taken.attempt = c.attempt)
    (horiginal : taken.original = c.original)
    (hpacket : taken.packet = c.packet ∨ reply = .ok taken.packet)
    (hcommit : c.phase = .commit → ∀ packet, reply ≠ .ok packet)
    (hbefore : c.phase = .freeze ∨ c.phase = .prepare ∨ c.phase = .commit) :
    Polled c reply (taken.startRollback destination sent).1
      (taken.startRollback destination sent).2 := by
  unfold Coordinator.startRollback
  split
  · have hpolled := @Polled.rollbackSource c reply
      { taken with phase := .rollbackSource destination, attempt := taken.attempt + 1 }
      destination rfl (by rw [← hattempt]) hpacket hcommit hbefore
    rw [← horiginal] at hpolled
    exact hpolled
  · exact .done _ .migration rfl hattempt horiginal hpacket

theorem Coordinator.poll_polled (c : Coordinator) (maxRedirects : Nat) (reply : Reply)
    (sent rollbackSent : Bool) :
    Polled c reply (c.poll maxRedirects reply sent rollbackSent).1
      (c.poll maxRedirects reply sent rollbackSent).2 := by
  unfold Coordinator.poll
  cases hphase : c.phase with
  | freeze =>
    have hnot : c.phase = .commit → ∀ packet, reply ≠ .ok packet := by
      rw [hphase]
      intro hfalse
      cases hfalse
    simp only [Coordinator.pollFreeze]
    cases reply with
    | ok packet =>
      simp only
      split
      · exact startRollback_polled false rollbackSent rfl rfl (.inl rfl) hnot (.inl hphase)
      · split
        · exact .prepare _ hphase rfl rfl rfl rfl
        · exact startRollback_polled false rollbackSent rfl rfl (.inr rfl) hnot (.inl hphase)
    | moved object location =>
      simp only
      split
      case isTrue hnewer =>
        split
        · exact .redirect _ location hphase (by rw [hnewer.1]) rfl rfl rfl
        · exact .stranded _ location .migration hphase (by rw [hnewer.1]) rfl rfl rfl
      case isFalse => exact c.finish_polled _ _
    | failed => exact c.finish_polled _ _
  | prepare =>
    have hnot : c.phase = .commit → ∀ packet, reply ≠ .ok packet := by
      rw [hphase]
      intro hfalse
      cases hfalse
    have hbefore : c.phase = .freeze ∨ c.phase = .prepare ∨ c.phase = .commit :=
      .inr (.inl hphase)
    simp only [Coordinator.pollPrepare]
    cases reply with
    | ok packet =>
      simp only
      split
      · exact .commit _ hphase rfl rfl rfl rfl
      · exact startRollback_polled true rollbackSent rfl rfl (.inr rfl) hnot hbefore
    | moved object location =>
      exact startRollback_polled false rollbackSent rfl rfl (.inl rfl) hnot hbefore
    | failed => exact startRollback_polled false rollbackSent rfl rfl (.inl rfl) hnot hbefore
  | commit =>
    have hbefore : c.phase = .freeze ∨ c.phase = .prepare ∨ c.phase = .commit :=
      .inr (.inr hphase)
    simp only [Coordinator.pollCommit]
    cases reply with
    | ok packet =>
      simp only
      split
      · exact .activate _ hphase rfl rfl rfl rfl
      · exact .done _ .committedFailure rfl rfl rfl (.inr rfl)
    | moved object location =>
      exact startRollback_polled true rollbackSent rfl rfl (.inl rfl) (by simp) hbefore
    | failed => exact startRollback_polled true rollbackSent rfl rfl (.inl rfl) (by simp) hbefore
  | activate =>
    simp only [Coordinator.pollActivate]
    cases reply with
    | ok packet =>
      simp only
      split
      · exact .done _ _ rfl rfl rfl (.inr rfl)
      case isFalse hmoved =>
        split
        · exact .retire _ hphase rfl rfl rfl rfl hmoved
        · exact .done _ .committedFailure rfl rfl rfl (.inr rfl)
    | moved object location => exact c.finish_polled _ _
    | failed => exact c.finish_polled _ _
  | retire => cases reply <;> exact c.finish_polled _ _
  | rollbackSource destination =>
    simp only [Coordinator.pollRollbackSource]
    cases reply with
    | ok packet =>
      simp only
      split
      case isTrue hboth =>
        have hbefore : c.phase = .rollbackSource true := by rw [hphase, hboth.1]
        exact .rollbackDestination _ hbefore rfl rfl rfl
      case isFalse => exact c.finish_polled _ _
    | moved object location => exact c.finish_polled _ _
    | failed => exact c.finish_polled _ _
  | rollbackDestination => exact c.finish_polled _ _
  | done result => exact .rest result hphase

/-- The calls table with a new request in it. -/
def withRequest (calls : Nat → CallState) (attempt : Nat) : Option Request → Nat → CallState
  | none => calls
  | some request => Function.update calls attempt (.sent request)

/-- The protocol goes on when the awaited answer is consumed, and also when the
    awaited step is given up. -/
theorem Protocol.polled (h : Protocol plan c calls gaveUp) {reply : Reply}
    (hours : reply.OursIn plan) (hready : calls c.attempt = .gone ∨ reply = .failed)
    {c' : Coordinator} {request : Option Request} (hpolled : Polled c reply c' request) :
    Protocol plan c' (withRequest calls c'.attempt request)
      (gaveUp || c'.phase.isRollback) := by
  have hconsumed : ∀ packet, reply = .ok packet → calls c.attempt = .gone := by
    intro packet hreply
    rcases hready with hgone | hfailed
    · exact hgone
    · rw [hreply] at hfailed
      cases hfailed
  have hkept : ∀ packet, packet = c.packet ∨ reply = .ok packet → Ours plan packet := by
    rintro packet (rfl | hreply)
    · exact h.packet
    · exact hours packet hreply
  have hmono : ∀ extra : Bool, gaveUp = true → (gaveUp || extra) = true := by
    intro extra hg
    rw [hg, Bool.true_or]
  cases hpolled with
  | rest result hphase =>
    rw [hphase]
    simpa [Phase.isRollback, withRequest] using h
  | done _ result hphase hattempt horiginal hpacket =>
    rw [hphase]
    simp only [Phase.isRollback, Bool.or_false, withRequest]
    refine h.finish c'.packet (hkept _ hpacket) ?_ result hphase hattempt rfl horiginal
    rintro ⟨request, hsent⟩
    rcases hpacket with hsame | hreply
    · exact hsame
    · rw [hconsumed _ hreply] at hsent
      cases hsent
  | stranded _ location result hbefore hreply hphase hattempt hpacket =>
    rw [hphase]
    simp only [Phase.isRollback, Bool.or_false, withRequest]
    have hgone : calls c.attempt = .gone := hready.resolve_right (by rw [hreply]; simp)
    exact
      { packet := hpacket ▸ h.packet.relocated location
        fresh := hattempt ▸ h.fresh
        past := hattempt ▸ h.past
        latest := by
          intro request hrequest
          rw [hattempt, hgone] at hrequest
          cases hrequest
        freezing := fun _ _ => .inl (by rw [hphase]; rfl)
        ours := h.ours
        answers := h.answers
        rollback := by
          rw [hphase]
          intro hfalse
          cases hfalse
        rollbackSent := h.rollbackSent }
  | rollbackSource _ destination hphase hattempt hpacket hcommit hbefore =>
    rw [hphase]
    refine h.submit (hmono _) (by simp [Phase.isRollback]) hattempt (hkept _ hpacket)
      ⟨.inr (by rw [hphase]; rfl), rfl, ?_, ?_⟩ (by simp [Phase.isRollback])
    · rintro (hstep | hstep) <;> cases hstep
    · intro hstep
      cases hstep
  | rollbackDestination _ hbefore hphase hattempt hpacket =>
    rw [hphase]
    refine h.submit (hmono _) (by simp [Phase.isRollback]) hattempt (hkept _ (.inl hpacket))
      ⟨.inr (by rw [hphase]; rfl), rfl, ?_, ?_⟩ (by simp [Phase.isRollback])
    · rintro (hstep | hstep) <;> cases hstep
    · intro hstep
      cases hstep
  | redirect _ location hbefore hreply hphase hattempt hpacket =>
    rw [hphase]
    have hgone : calls c.attempt = .gone := hready.resolve_right (by rw [hreply]; simp)
    refine h.submit (hmono _) (fun _ => hgone) hattempt (hpacket ▸ h.packet.relocated location)
      ⟨.inr (by rw [hphase]; rfl), rfl, ?_, ?_⟩ ?_
    · rintro (hstep | hstep) <;> cases hstep
    · intro hstep
      cases hstep
    · rw [hphase]
      rintro (hfalse | hfalse) <;> cases hfalse
  | prepare _ hbefore hreply hphase hattempt horiginal =>
    rw [hphase]
    have hpacket := hours _ hreply
    refine h.submit (hmono _) (fun _ => hconsumed _ hreply) hattempt hpacket
      ⟨.inr (by rw [hphase]; rfl), rfl, fun _ => hpacket.destination, ?_⟩ ?_
    · intro hstep
      cases hstep
    · rw [hphase]
      rintro (hfalse | hfalse) <;> cases hfalse
  | commit _ hbefore hreply hphase hattempt horiginal =>
    rw [hphase]
    refine h.submit (hmono _) (fun _ => hconsumed _ hreply) hattempt (hours _ hreply)
      ⟨.inr (by rw [hphase]; rfl), rfl, ?_, ?_⟩ ?_
    · rintro (hstep | hstep) <;> cases hstep
    · intro hstep
      cases hstep
    · rw [hphase]
      rintro (hfalse | hfalse) <;> cases hfalse
  | activate _ hbefore hreply hphase hattempt horiginal =>
    rw [hphase]
    have hpacket := hours _ hreply
    refine h.submit (hmono _) (fun _ => hconsumed _ hreply) hattempt hpacket
      ⟨.inr (by rw [hphase]; rfl), rfl, fun _ => hpacket.destination, ?_⟩ ?_
    · intro hstep
      cases hstep
    · rw [hphase]
      rintro (hfalse | hfalse) <;> cases hfalse
  | retire _ hbefore hreply hphase hattempt horiginal hmoved =>
    rw [hphase]
    refine h.submit (hmono _) (fun _ => hconsumed _ hreply) hattempt (hours _ hreply)
      ⟨.inr (by rw [hphase]; rfl), rfl, ?_, fun _ => ⟨rfl, hmoved⟩⟩ ?_
    · rintro (hstep | hstep) <;> cases hstep
    · rw [hphase]
      rintro (hfalse | hfalse) <;> cases hfalse

end Hataori.Migration
