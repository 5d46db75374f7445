import Hataori.Runtime.Promises

/-!
# Every call is answered once

A request belongs to one call at a time, and the gate keeps new entries out of the table from the
moment `shutdown` has drained it. So each promise is completed once at most, and a future that
waits has its answer, or will get it.
-/

namespace Hataori.Runtime.Desk

open Lib.Maps Lib.Machine

variable {desk next : Desk} {index : Nat} {call : PendingCall}

/-- What `spawn_inner` knows while it holds the gate, and what is so from the moment `shutdown` has
    drained the table. -/
structure Guarded (desk : Desk) : Prop where
  fresh : ∀ request, desk.gate = .checked request → request.sequence.toNat < desk.nextRequest ∧
    ∀ call ∈ desk.calls, call.request = request → call.stage.claims = false
  closing : ∀ ends, desk.gate = .closing ends → desk.course ≠ .running
  state : desk.course ≠ .running → desk.state ≠ .running
  empty : desk.course ≠ .running → ∀ request, desk.table.entries.lookup request = none
  idle : desk.course ≠ .running → ∀ request, desk.gate ≠ .checked request

/-- What a step away from the gate leaves of it. -/
theorem Guarded.mono (h : Guarded desk) (hgate : next.gate = desk.gate ∨ next.gate = .free)
    (hcourse : next.course = desk.course)
    (hstate : next.state = .running → desk.state = .running)
    (hle : desk.nextRequest ≤ next.nextRequest)
    (htable : ∀ request entry, next.table.entries.lookup request = some entry →
      desk.table.entries.lookup request = some entry)
    (hcalls : ∀ call ∈ next.calls, ∃ old ∈ desk.calls, old.request = call.request ∧
      (call.stage.claims = true → old.stage.claims = true)) : Guarded next := by
  have hback : ∀ {gate : Gate}, gate ≠ .free → next.gate = gate → desk.gate = gate := by
    intro gate hfree heq
    rcases hgate with hsame | hnext
    · rw [← hsame, heq]
    · exact absurd (heq.symm.trans hnext) hfree
  refine ⟨?fresh, ?closing, ?state, ?empty, ?idle⟩
  case fresh =>
    intro request heq
    obtain ⟨hissued, hfree⟩ := h.fresh request (hback nofun heq)
    refine ⟨Nat.lt_of_lt_of_le hissued hle, ?_⟩
    intro found hmem hrequest
    obtain ⟨old, hold, hsame, hclaims⟩ := hcalls found hmem
    by_contra hfound
    have hfalse := hfree old hold (hsame.trans hrequest)
    rw [hclaims (Bool.of_not_eq_false hfound)] at hfalse
    cases hfalse
  case closing =>
    intro ends heq
    rw [hcourse]
    exact h.closing ends (hback nofun heq)
  case state =>
    intro hclosed hrunning
    exact h.state (hcourse ▸ hclosed) (hstate hrunning)
  case empty =>
    intro hclosed request
    cases hlook : next.table.entries.lookup request with
    | none => rfl
    | some entry =>
      have hold := htable _ _ hlook
      rw [h.empty (hcourse ▸ hclosed)] at hold
      cases hold
  case idle =>
    intro hclosed request heq
    exact h.idle (hcourse ▸ hclosed) request (hback nofun heq)

theorem same_calls {calls : List PendingCall} : ∀ call ∈ calls, ∃ old ∈ calls,
    old.request = call.request ∧ (call.stage.claims = true → old.stage.claims = true) :=
  fun call hmem => ⟨call, hmem, rfl, id⟩

theorem set_calls {calls : List PendingCall} (hcall : calls[index]? = some call)
    {new : PendingCall} (hrequest : new.request = call.request)
    (hclaims : new.stage.claims = true → call.stage.claims = true) :
    ∀ found ∈ calls.set index new, ∃ old ∈ calls, old.request = found.request ∧
      (found.stage.claims = true → old.stage.claims = true) := by
  intro found hmem
  rcases List.mem_or_eq_of_mem_set hmem with hmem | rfl
  · exact same_calls found hmem
  · exact ⟨call, List.mem_of_getElem? hcall, hrequest.symm, hclaims⟩

/-- The invariant of a desk. -/
structure Sound (limit : Nat) (desk : Desk) : Prop where
  kept : Kept desk
  guarded : Guarded desk
  limit_eq : desk.table.limit = limit

variable {limit : Nat}

theorem sound_start (localId : LocalityId) (limit : Nat) :
    Sound limit (start localId limit) := by
  have hcalls : ∀ (index : Nat) (call : PendingCall),
      (start localId limit).calls[index]? ≠ some call := by
    intro index call
    simp only [start, List.getElem?_nil, ne_eq, reduceCtorEq, not_false_eq_true]
  have hkept : Kept (start localId limit) :=
    { bounded := Nat.zero_le _
      issued := fun _ hmem => absurd hmem List.not_mem_nil
      claims := fun i _ a _ ha => absurd ha (hcalls i a)
      held := fun request entry hentry => by
        rw [start, AList.lookup_empty] at hentry
        cases hentry
      waits := fun index call hcall => absurd hcall (hcalls index call)
      taken := fun _ hmem => absurd hmem List.not_mem_nil
      takenOnce := List.nodup_nil
      completed := fun _ hmem => absurd hmem List.not_mem_nil
      completedOnce := List.nodup_nil
      result := fun index call _ hcall => absurd hcall (hcalls index call)
      ready := fun index call hcall => absurd hcall (hcalls index call)
      yielded := fun _ hmem => absurd hmem List.not_mem_nil
      yieldedOnce := List.nodup_nil }
  refine ⟨hkept, ⟨nofun, nofun, ?_, ?_, ?_⟩, rfl⟩ <;> exact fun hclosed => absurd rfl hclosed

theorem callAt_eq_some {stage : CallStage} :
    desk.callAt index stage = some call ↔ desk.calls[index]? = some call ∧ call.stage = stage := by
  rw [callAt, Option.filter_eq_some_iff, decide_eq_true_iff]

/-- A future goes on and keeps its entry. -/
theorem Sound.setCall (h : Sound limit desk) (hcall : desk.calls[index]? = some call)
    (new : PendingCall) (hnew : Succeeds call new)
    (hgone : new.stage.isOpen = false →
      call.stage.isOpen = false ∨ call.promise.done = true) :
    Sound limit (desk.setCall index new) :=
  ⟨h.kept.setCall_same hcall new hnew hgone,
    h.guarded.mono (.inl rfl) rfl id (Nat.le_refl _) (fun _ _ => id)
      (set_calls hcall hnew.request hnew.claims), h.limit_eq⟩

/-- The gate is let go of by `spawn_inner`. -/
theorem Sound.letGo (h : Sound limit desk) : Sound limit { desk with gate := .free } :=
  ⟨h.kept.congr (Nat.le_refl _) rfl rfl rfl rfl rfl rfl,
    h.guarded.mono (.inr rfl) rfl id (Nat.le_refl _) (fun _ _ => id) same_calls, h.limit_eq⟩

theorem Sound.withdraw (h : Sound limit desk) (hcall : desk.calls[index]? = some call)
    {stage : CallStage} (hclaims : call.stage.claims = true) (hover : call.stage.isOver = false)
    (hstage : stage.claims = false) : Sound limit (desk.withdraw index call stage) :=
  ⟨h.kept.withdraw hcall hclaims hover hstage,
    h.guarded.mono (.inl rfl) rfl id (Nat.le_refl _)
      (fun _ _ hentry => (PendingTable.Shrinks.remove _).lookup hentry)
      (set_calls hcall rfl fun _ => hclaims), h.limit_eq⟩

theorem Sound.submit (h : Sound limit desk) (hcall : desk.calls[index]? = some call)
    (hstage : call.stage = .spawning) (accepted : Bool) :
    Sound limit (desk.submit index call accepted) := by
  unfold Desk.submit
  cases accepted with
  | true =>
    refine Sound.letGo (h.setCall hcall { call with stage := .waiting } ?_ nofun)
    exact
      { request := rfl
        claims := fun _ => by rw [hstage]; rfl
        isOpen := fun _ => ⟨by rw [hstage]; rfl, rfl⟩
        isOver := fun hover => by rw [hstage] at hover; cases hover
        promise := .inl rfl }
  | false =>
    exact Sound.letGo (h.withdraw hcall (by rw [hstage]; rfl) (by rw [hstage]; rfl) rfl)

theorem Sound.drop (h : Sound limit desk) (hcall : desk.calls[index]? = some call)
    (hstage : call.stage = .waiting) : Sound limit (desk.drop index call) := by
  refine h.setCall hcall _ ?_ ?_
  · exact
      { request := rfl
        claims := fun _ => by rw [hstage]; rfl
        isOpen := fun _ => ⟨by rw [hstage]; rfl, rfl⟩
        isOver := fun hover => by rw [hstage] at hover; cases hover
        promise := .inl rfl }
  · intro hshut
    cases hdone : call.promise.done with
    | true => exact .inr rfl
    | false =>
      rw [hdone] at hshut
      cases hshut

theorem Sound.poll (h : Sound limit desk) (hcall : desk.calls[index]? = some call)
    (hstage : call.stage = .waiting) : Sound limit (desk.poll index call) := by
  have hkept := h.kept.poll hcall hstage
  unfold Desk.poll at hkept ⊢
  split at hkept
  · exact h
  · exact ⟨hkept, h.guarded.mono (.inl rfl) rfl id (Nat.le_refl _) (fun _ _ => id)
      (set_calls hcall rfl fun _ => by rw [hstage]; rfl), h.limit_eq⟩

theorem Sound.complete (h : Sound limit desk) {answer : Answer} {rest : List (Nat × Answer)}
    (htaken : desk.taken.Perm ((index, answer) :: rest)) :
    Sound limit (desk.complete index answer rest) := by
  obtain ⟨call, hcall, -⟩ := h.kept.taken (index, answer)
    (htaken.mem_iff.mpr List.mem_cons_self)
  refine ⟨h.kept.complete htaken, ?_, h.limit_eq⟩
  refine h.guarded.mono (.inl rfl) rfl id (Nat.le_refl _) (fun _ _ => id) ?_
  rw [complete_calls hcall]
  exact set_calls hcall rfl id

/-- Entries only leave the table, and no future goes on. -/
theorem Sound.shrink (h : Sound limit desk) (hkept : Kept next) (hgate : next.gate = desk.gate)
    (hcourse : next.course = desk.course)
    (hstate : next.state = .running → desk.state = .running)
    (hnext : next.nextRequest = desk.nextRequest) (hcalls : next.calls = desk.calls)
    (hshrinks : desk.table.Shrinks next.table) : Sound limit next :=
  ⟨hkept, h.guarded.mono (.inl hgate) hcourse hstate hnext.ge
    (fun _ _ hentry => hshrinks.lookup hentry) (hcalls ▸ same_calls),
    hshrinks.limit_eq.trans h.limit_eq⟩

theorem Sound.respond (h : Sound limit desk) (hempty : desk.taken = []) (request : RequestId)
    (source : LocalityId) (action : ActionId) (answer : Answer) :
    Sound limit (desk.respond request source action answer) := by
  have hkept := h.kept.respond hempty request source action answer
  unfold Desk.respond at hkept ⊢
  split at hkept
  · next entry table htake =>
    obtain ⟨hnone, -⟩ | ⟨-, -, -, -, -, rfl⟩ := PendingTable.takeChecked_cases htake
    · cases hnone
    · exact h.shrink hkept rfl rfl id rfl rfl (.remove request)
  · exact h

theorem Sound.refuse (h : Sound limit desk) (hempty : desk.taken = []) (request : RequestId)
    (error : RuntimeError) : Sound limit (desk.refuse request error) := by
  have hkept := h.kept.refuse hempty request error
  unfold Desk.refuse at hkept ⊢
  split at hkept
  · exact h
  · next entry table hremove =>
    obtain ⟨-, rfl⟩ := Prod.mk.inj hremove
    exact h.shrink hkept rfl rfl id rfl rfl (.remove request)

theorem Sound.enter (h : Sound limit desk) (hrunning : desk.state = .running) :
    Sound limit desk.enter := by
  unfold Desk.enter
  cases hfollowing : checkedSucc desk.nextRequest with
  | none => exact h
  | some following =>
    obtain ⟨rfl, hbound⟩ := checkedSucc_eq_some.mp hfollowing
    have hkept : ∀ gate, Kept { desk with nextRequest := desk.nextRequest + 1, gate := gate } :=
      fun gate => h.kept.congr (Nat.le_succ _) rfl rfl rfl rfl rfl rfl
    cases hrequest : RequestId.new desk.localId desk.nextRequest with
    | none =>
      exact ⟨hkept desk.gate,
        h.guarded.mono (.inl rfl) rfl id (Nat.le_succ _) (fun _ _ => id) same_calls, h.limit_eq⟩
    | some request =>
      have hopen : desk.course = .running := by
        by_contra hclosed
        exact h.guarded.state hclosed hrunning
      obtain ⟨-, hsequence⟩ := RequestId.new_some hrequest (Nat.lt_of_succ_lt hbound)
      refine ⟨hkept _, ⟨?_, nofun, h.guarded.state, h.guarded.empty,
        fun hclosed => absurd hopen hclosed⟩, h.limit_eq⟩
      intro other heq
      cases heq
      refine ⟨hsequence ▸ Nat.lt_succ_self _, ?_⟩
      rintro found hmem rfl
      exact absurd (h.kept.issued found hmem) (hsequence ▸ Nat.lt_irrefl _)

/-- A call whose future is finished gives its request to the next one. -/
theorem Sound.reenter (h : Sound limit desk) (hrunning : desk.state = .running)
    (hcall : desk.calls[index]? = some call) (hstage : call.stage = .finished) :
    Sound limit { desk.setCall index { call with stage := .resent } with
      gate := .checked call.request } := by
  have hopen : desk.course = .running := by
    by_contra hclosed
    exact h.guarded.state hclosed hrunning
  have hset := h.setCall hcall { call with stage := .resent }
    { request := rfl
      claims := nofun
      isOpen := nofun
      isOver := fun _ => rfl
      promise := .inl rfl } fun _ => .inl (by rw [hstage]; rfl)
  refine ⟨hset.kept.congr (Nat.le_refl _) rfl rfl rfl rfl rfl rfl, ⟨?_, nofun, h.guarded.state,
    h.guarded.empty, fun hclosed => absurd hopen hclosed⟩, h.limit_eq⟩
  intro other heq
  cases heq
  refine ⟨h.kept.issued call (List.mem_of_getElem? hcall), ?_⟩
  intro found hmem hrequest
  obtain ⟨other, hfound⟩ := List.getElem?_of_mem hmem
  rcases (getElem?_set_iff hcall).mp hfound with ⟨rfl, rfl⟩ | ⟨hne, hold⟩
  · rfl
  · by_contra hclaims
    exact hne (h.kept.claims _ _ _ _ hold hcall (Bool.of_not_eq_false hclaims)
      (by rw [hstage]; rfl) hrequest)

theorem Sound.insert (h : Sound limit desk) {request : RequestId}
    (hgate : desk.gate = .checked request) (entry : PendingEntry) :
    Sound limit (desk.insert request entry) := by
  obtain ⟨hissued, hfree⟩ := h.guarded.fresh request hgate
  have hopen : desk.course = .running := by
    by_contra hclosed
    exact h.guarded.idle hclosed request hgate
  have hkept := h.kept.insert entry hissued hfree
  unfold Desk.insert at hkept ⊢
  cases hinsert : desk.table.insert request entry with
  | error error => exact h.letGo
  | ok table =>
    rw [hinsert] at hkept
    exact ⟨hkept, ⟨nofun, nofun, h.guarded.state, fun hclosed => absurd hopen hclosed,
      fun hclosed => absurd hopen hclosed⟩,
      (PendingTable.limit_insert hinsert).trans h.limit_eq⟩

/-- From here on the table stays empty. -/
theorem Sound.close (h : Sound limit desk) (hempty : desk.taken = []) (ends : Bool) :
    Sound limit (desk.close ends) :=
  ⟨(h.kept.drain hempty .shutdown).congr (Nat.le_refl _) rfl rfl rfl rfl rfl rfl,
    ⟨nofun, fun _ _ => nofun, fun _ => nofun, fun _ _ => rfl, fun _ _ => nofun⟩, h.limit_eq⟩

theorem Sound.step {event : Event} (h : Sound limit desk) (hstep : desk.step event = some next) :
    Sound limit next := by
  have hnil : desk.taken.isEmpty = true → desk.taken = [] := List.isEmpty_iff.mp
  cases event with
  | issue =>
    cases hstep
    have hle : desk.nextRequest ≤ (checkedSucc desk.nextRequest).getD desk.nextRequest := by
      cases hfollowing : checkedSucc desk.nextRequest with
      | none => exact Nat.le_refl _
      | some following =>
        rw [(checkedSucc_eq_some.mp hfollowing).1]
        exact Nat.le_succ _
    exact ⟨h.kept.congr hle rfl rfl rfl rfl rfl rfl,
      h.guarded.mono (.inl rfl) rfl id hle (fun _ _ => id) same_calls, h.limit_eq⟩
  | enter =>
    simp only [Desk.step] at hstep
    split at hstep
    · split at hstep
      · next hrunning =>
        cases hstep
        exact h.enter hrunning
      · cases hstep
    · cases hstep
  | reenter index =>
    simp only [Desk.step] at hstep
    split at hstep
    · next call _ hat =>
      obtain ⟨hcall, hstage⟩ := callAt_eq_some.mp hat
      split at hstep
      · next hrunning =>
        cases hstep
        exact h.reenter hrunning hcall hstage
      · cases hstep
    · cases hstep
  | leave =>
    simp only [Desk.step] at hstep
    split at hstep
    · cases hstep
      exact h.letGo
    · cases hstep
  | insert entry =>
    simp only [Desk.step] at hstep
    split at hstep
    · next request hgate =>
      cases hstep
      exact h.insert hgate entry
    · cases hstep
  | submit accepted =>
    simp only [Desk.step] at hstep
    split at hstep
    · obtain ⟨call, hat, rfl⟩ := Option.map_eq_some_iff.mp hstep
      obtain ⟨hcall, hstage⟩ := callAt_eq_some.mp hat
      exact h.submit hcall hstage accepted
    · cases hstep
  | poll index =>
    obtain ⟨call, hat, rfl⟩ := Option.map_eq_some_iff.mp hstep
    obtain ⟨hcall, hstage⟩ := callAt_eq_some.mp hat
    exact h.poll hcall hstage
  | drop index =>
    obtain ⟨call, hat, rfl⟩ := Option.map_eq_some_iff.mp hstep
    obtain ⟨hcall, hstage⟩ := callAt_eq_some.mp hat
    exact h.drop hcall hstage
  | cancel index =>
    obtain ⟨call, hat, rfl⟩ := Option.map_eq_some_iff.mp hstep
    obtain ⟨hcall, hstage⟩ := callAt_eq_some.mp hat
    exact h.withdraw hcall (by rw [hstage]; rfl) (by rw [hstage]; rfl) rfl
  | respond request source action answer =>
    simp only [Desk.step, Option.ite_none_right_eq_some, Option.some.injEq] at hstep
    obtain ⟨hempty, rfl⟩ := hstep
    exact h.respond (hnil hempty) request source action answer
  | refuse request error =>
    simp only [Desk.step, Option.ite_none_right_eq_some, Option.some.injEq] at hstep
    obtain ⟨hempty, rfl⟩ := hstep
    exact h.refuse (hnil hempty) request error
  | expire now =>
    simp only [Desk.step, Option.ite_none_right_eq_some, Option.some.injEq] at hstep
    obtain ⟨hempty, rfl⟩ := hstep
    exact h.shrink (h.kept.expire (hnil hempty) now) rfl rfl id rfl rfl (.expired now)
  | complete position =>
    obtain ⟨⟨index, answer⟩, hat, rfl⟩ := Option.map_eq_some_iff.mp hstep
    obtain ⟨hlt, heq⟩ := List.getElem?_eq_some_iff.mp hat
    exact h.complete (heq ▸ List.getElem_cons_eraseIdx_perm hlt).symm
  | fail error =>
    simp only [Desk.step, Option.ite_none_right_eq_some, Option.some.injEq] at hstep
    obtain ⟨hempty, rfl⟩ := hstep
    refine h.shrink ?_ rfl rfl nofun rfl rfl .drain
    exact (h.kept.drain (hnil hempty) error).congr (Nat.le_refl _) rfl rfl rfl rfl rfl rfl
  | condemn =>
    cases hstep
    exact h.shrink (h.kept.congr (Nat.le_refl _) rfl rfl rfl rfl rfl rfl) rfl rfl nofun rfl rfl
      .same
  | shutdown =>
    simp only [Desk.step] at hstep
    split at hstep
    · simp only [Option.ite_none_right_eq_some, Option.some.injEq] at hstep
      obtain ⟨⟨-, -, hempty⟩, rfl⟩ := hstep
      exact h.close (hnil hempty) true
    · cases hstep
  | abandon =>
    simp only [Desk.step] at hstep
    split at hstep
    · simp only [Option.ite_none_right_eq_some, Option.some.injEq] at hstep
      obtain ⟨⟨-, -, hempty⟩, rfl⟩ := hstep
      exact h.close (hnil hempty) false
    · cases hstep
  | reopen =>
    simp only [Desk.step] at hstep
    split at hstep
    · next ends hgate =>
      simp only [Option.ite_none_right_eq_some, Option.some.injEq] at hstep
      obtain ⟨-, rfl⟩ := hstep
      have hclosed := h.guarded.closing ends hgate
      exact ⟨h.kept.congr (Nat.le_refl _) rfl rfl rfl rfl rfl rfl, ⟨nofun, nofun,
        fun _ => h.guarded.state hclosed, fun _ => h.guarded.empty hclosed, fun _ _ => nofun⟩,
        h.limit_eq⟩
    · cases hstep
  | stop inTime =>
    simp only [Desk.step, Option.ite_none_right_eq_some, Option.some.injEq] at hstep
    obtain ⟨⟨hending, -⟩, rfl⟩ := hstep
    have hclosed : desk.course ≠ .running := by
      rw [hending]
      nofun
    refine ⟨h.kept.congr (Nat.le_refl _) rfl rfl rfl rfl rfl rfl, ⟨h.guarded.fresh,
      fun _ _ => nofun, ?_, fun _ => h.guarded.empty hclosed, fun _ => h.guarded.idle hclosed⟩,
      h.limit_eq⟩
    intro _ hrunning
    cases inTime <;> cases hrunning

/-- The table stays within its limit, and no promise is completed twice. A future comes once to
    the one answer that its promise was completed with; until then its answer is there, or on its
    way, or its entry is in the table. No entry outlives its future, and there are none once the
    table was drained for good: then every future that is left has its answer. -/
theorem answered_once (localId : LocalityId) (limit : Nat) {events : List Event}
    (hrun : exec step (start localId limit) events = some desk) :
    desk.table.len ≤ limit ∧
    (desk.completed.map Prod.fst).Nodup ∧
    (desk.yielded.map Prod.fst).Nodup ∧ (∀ pair ∈ desk.yielded, pair ∈ desk.completed) ∧
    (∀ (index : Nat) (call : PendingCall), desk.calls[index]? = some call →
      call.stage = .waiting →
      (∃ answer, call.promise.result = some answer ∧ (index, answer) ∈ desk.completed) ∨
      (∃ answer, (index, answer) ∈ desk.taken) ∨
      desk.course = .running ∧ desk.holder call.request = index ∧
        ∃ entry, desk.table.entries.lookup call.request = some entry) ∧
    (∀ request entry, desk.table.entries.lookup request = some entry →
      desk.course = .running ∧ ∃ call, desk.calls[desk.holder request]? = some call ∧
        call.request = request ∧ call.stage.isOpen = true ∧ call.promise = .new) := by
  have hsound : Sound limit desk :=
    exec_invariant_all (Sound limit) (fun _ _ _ h hstep => h.step hstep)
      (sound_start localId limit) hrun
  obtain ⟨hkept, hguarded, hlimit⟩ := hsound
  have hopen : ∀ request entry, desk.table.entries.lookup request = some entry →
      desk.course = .running := by
    intro request entry hentry
    by_contra hclosed
    rw [hguarded.empty hclosed] at hentry
    cases hentry
  refine ⟨hlimit ▸ hkept.bounded, hkept.completedOnce, hkept.yieldedOnce,
    fun pair hmem => (hkept.yielded pair hmem).1, ?_, ?_⟩
  · intro index call hcall hstage
    have hfuture : call.stage.isOpen = true := by
      rw [hstage]
      rfl
    cases hdone : call.promise.done with
    | true =>
      obtain ⟨answer, hanswer⟩ := hkept.ready _ _ hcall hfuture hdone
      exact .inl ⟨answer, hanswer, hkept.result _ _ _ hcall hanswer⟩
    | false =>
      by_cases htaken : index ∈ desk.taken.map Prod.fst
      · obtain ⟨⟨_, answer⟩, hmem, rfl⟩ := List.mem_map.mp htaken
        exact .inr (.inl ⟨answer, hmem⟩)
      · obtain ⟨⟨entry, hentry⟩, hholder⟩ := hkept.waits _ _ hcall hfuture hdone htaken
        exact .inr (.inr ⟨hopen _ _ hentry, hholder, entry, hentry⟩)
  · intro request entry hentry
    obtain ⟨call, hcall, hrequest, hfresh, hfuture, -⟩ := hkept.held _ _ hentry
    exact ⟨hopen _ _ hentry, call, hcall, hrequest, hfuture, hfresh⟩

namespace Sample

def request : RequestId := ⟨⟨1⟩, 1, u64_one⟩

def action : ActionId := ⟨1, u128_one⟩

def entry : PendingEntry := ⟨⟨2⟩, action, ⟨0⟩, 10, 10, none⟩

/-- The first call is answered. The second one is inserted behind a failure of the runtime, and
    is there for the shutdown to find. -/
def events : List Event :=
  [.enter, .insert entry, .submit true, .enter,
    .respond request ⟨2⟩ action (.ok (.encoded [])), .complete 0, .poll 0,
    .fail .shutdown, .insert entry, .submit true, .shutdown, .complete 0, .reopen, .stop true]

theorem answered_once_sample :
    ∃ desk, exec step (start ⟨1⟩ 2) events = some desk ∧ desk.completed.map Prod.fst = [0, 1] ∧
      desk.yielded.map Prod.fst = [0] ∧ ∀ pair ∈ desk.yielded, pair ∈ desk.completed := by
  obtain ⟨desk, hrun, hends⟩ : ∃ desk, exec step (start ⟨1⟩ 2) events = some desk ∧
      (desk.completed.map Prod.fst, desk.yielded.map Prod.fst) = ([0, 1], [0]) :=
    Option.map_eq_some_iff.mp (by decide +kernel)
  obtain ⟨hcompleted, hyielded⟩ := Prod.mk.inj hends
  exact ⟨desk, hrun, hcompleted, hyielded, (answered_once ⟨1⟩ 2 hrun).2.2.2.1⟩

end Sample

end Hataori.Runtime.Desk
