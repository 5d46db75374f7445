import Hataori.Algorithms.Batch
import Hataori.Lib.Machine
import Hataori.Pmap.Protocol

/-!
# Maps in a domain

`map_in` of `src/src/local.rs` and the admission of `src/src/domain.rs`: calls from any thread on
one domain, of which the one that is admitted runs its callbacks in the pool of the domain, one
after the other or, in `Outer` mode, in any order. What a callback answers is an argument of its
step; it may panic, and it may call `map_in` itself.
-/

namespace Hataori.Local

open Hataori.Algorithms Hataori.Pmap Lib.Machine

variable {U : Type}

/-- What a callback answers. -/
inductive Answer (U : Type) where
  | ok (value : U)
  | error (message : String)
  | panic
  deriving DecidableEq, Repr

/-- The callback panicked. -/
def Answer.isPanic : Answer U → Bool
  | .panic => true
  | _ => false

/-- `MapInError`. -/
inductive MapInError where
  | missingPool
  | foreignPool
  | domainBusy
  | callback (index : Nat) (message : String)
  deriving DecidableEq, Repr

/-- The precondition failed, before any callback. -/
def MapInError.IsRefusal : MapInError → Prop
  | .callback _ _ => False
  | _ => True

/-- A call of `map_in`: the mode, the number of items, and the pool the calling thread is a worker
    of. -/
structure MapCall where
  mode : LocalMode
  count : Nat
  worker : Option Nat
  deriving DecidableEq, Repr

/-- Where a thread stands that uses the domain. -/
inductive CallPhase (U : Type) where
  | waiting
  | holding
  | inOrder (outputs : List U)
  | outer (results : List (Option (Answer U)))
  | returned (result : Except MapInError (List U))
  | unwound
  deriving DecidableEq

/-- `Domain`, by its pool and its admission slot, with the threads that use it and the callbacks
    that were called, by thread and index. -/
structure DomainUse (U : Type) where
  pool : Option Nat
  running : Bool
  calls : Nat → CallPhase U
  called : List (Nat × Nat)

/-- What a thread does next. `tryAdmit` and `leave` are of those who use the domain for something
    else. -/
inductive Use (U : Type) where
  | tryAdmit (thread : Nat)
  | leave (thread : Nat)
  | enter (thread : Nat)
  | answer (thread index : Nat) (answer : Answer U)
  | finish (thread : Nat)
  deriving DecidableEq

/-- The error of a map is the one of its callback. -/
def mapResult (found : Except (Nat × String) (List U)) : Except MapInError (List U) :=
  found.mapError fun failure => .callback failure.1 failure.2

/-- The results of a parallel iterator, when no callback is left and none panicked. -/
def collected : List (Option (Answer U)) → Option (List (Except String U))
  | [] => some []
  | some (.ok value) :: rest => (collected rest).map (.ok value :: ·)
  | some (.error message) :: rest => (collected rest).map (.error message :: ·)
  | _ => none

/-- What an admitted call starts with. -/
def CallPhase.begin (call : MapCall) : CallPhase U :=
  match call.mode with
  | .outer => .outer (List.replicate call.count none)
  | _ => .inOrder []

namespace DomainUse

/-- Nobody uses the domain. -/
def free (pool : Option Nat) : DomainUse U := ⟨pool, false, fun _ => .waiting, []⟩

/-- The thread moves on. -/
def setCall (use : DomainUse U) (thread : Nat) (phase : CallPhase U) : DomainUse U :=
  { use with calls := Function.update use.calls thread phase }

/-- The thread moves on and drops its `DomainAdmission`. -/
def release (use : DomainUse U) (thread : Nat) (phase : CallPhase U) : DomainUse U :=
  { use.setCall thread phase with running := false }

/-- `map_in` up to its first callback. -/
def enter (use : DomainUse U) (thread : Nat) (call : MapCall) : DomainUse U :=
  match use.pool with
  | none => use.setCall thread (.returned (.error .missingPool))
  | some pool =>
    if call.worker.isSome ∧ call.worker ≠ some pool then
      use.setCall thread (.returned (.error .foreignPool))
    else if use.running then use.setCall thread (.returned (.error .domainBusy))
    else { use.setCall thread (.begin call) with running := true }

/-- A callback answers. -/
def answered (use : DomainUse U) (thread : Nat) (call : MapCall) (index : Nat)
    (answer : Answer U) : Option (DomainUse U) :=
  match use.calls thread with
  | .inOrder outputs =>
    if index = outputs.length ∧ index < call.count then
      let next := { use with called := use.called ++ [(thread, index)] }
      match answer with
      | .ok value => some (next.setCall thread (.inOrder (outputs ++ [value])))
      | .error message => some (next.release thread
          (.returned (.error (.callback index (truncateMessage message)))))
      | .panic => some (next.release thread .unwound)
    else none
  | .outer results =>
    match results[index]? with
    | some none => some ({ use with called := use.called ++ [(thread, index)] }.setCall thread
        (.outer (results.set index (some answer))))
    | _ => none
  | _ => none

/-- No callback is left, or one has panicked. -/
def finish (use : DomainUse U) (thread : Nat) (call : MapCall) : Option (DomainUse U) :=
  match use.calls thread with
  | .inOrder outputs =>
    if outputs.length = call.count then some (use.release thread (.returned (.ok outputs)))
    else none
  | .outer results =>
    if results.any (·.any Answer.isPanic) then some (use.release thread .unwound)
    else (collected results).map fun answers =>
      use.release thread (.returned (mapResult (mapOutcomes answers)))
  | _ => none

/-- The callbacks of a thread, by their indices. -/
def calledBy (use : DomainUse U) (thread : Nat) : List Nat :=
  (use.called.filter fun entry => entry.1 = thread).map Prod.snd

/-- One step of one thread. -/
def step (plan : Nat → MapCall) (use : DomainUse U) : Use U → Option (DomainUse U)
  | .tryAdmit thread =>
    match use.calls thread with
    | .waiting =>
      -- `try_admit` fails without waiting when the slot is taken.
      if use.running then some use
      else some { use.setCall thread .holding with running := true }
    | _ => none
  | .leave thread =>
    match use.calls thread with
    | .holding => some (use.release thread .waiting)
    | _ => none
  | .enter thread =>
    match use.calls thread with
    | .waiting => some (use.enter thread (plan thread))
    | _ => none
  | .answer thread index answer => use.answered thread (plan thread) index answer
  | .finish thread => use.finish thread (plan thread)

end DomainUse

/-! ## The turns of a thread -/

/-- What a step does to the phase of the thread that takes it and to the slot, with the callbacks
    that it calls. -/
inductive Turn (call : MapCall) (running : Bool) :
    CallPhase U → CallPhase U → Bool → List (Nat × Answer U) → Prop
  | blocked (htaken : running = true) : Turn call running .waiting .waiting true []
  | admitted (hfree : running = false) : Turn call running .waiting .holding true []
  | left : Turn call running .holding .waiting false []
  | refused (error : MapInError) (hrefusal : error.IsRefusal) :
      Turn call running .waiting (.returned (.error error)) running []
  | began (hfree : running = false) : Turn call running .waiting (.begin call) true []
  | called (outputs : List U) (value : U) (hleft : outputs.length < call.count) :
      Turn call running (.inOrder outputs) (.inOrder (outputs ++ [value])) running
        [(outputs.length, .ok value)]
  | failed (outputs : List U) (message : String) (hleft : outputs.length < call.count) :
      Turn call running (.inOrder outputs)
        (.returned (.error (.callback outputs.length (truncateMessage message)))) false
        [(outputs.length, .error message)]
  | panicked (outputs : List U) (hleft : outputs.length < call.count) :
      Turn call running (.inOrder outputs) .unwound false [(outputs.length, .panic)]
  | answered (results : List (Option (Answer U))) (index : Nat) (answer : Answer U)
      (hleft : results[index]? = some none) :
      Turn call running (.outer results) (.outer (results.set index (some answer))) running
        [(index, answer)]
  | completed (outputs : List U) (hall : outputs.length = call.count) :
      Turn call running (.inOrder outputs) (.returned (.ok outputs)) false []
  | gathered (results : List (Option (Answer U))) (answers : List (Except String U))
      (hall : collected results = some answers) :
      Turn call running (.outer results) (.returned (mapResult (mapOutcomes answers))) false []
  | unwound (results : List (Option (Answer U)))
      (hpanic : results.any (·.any Answer.isPanic) = true) :
      Turn call running (.outer results) .unwound false []

namespace DomainUse

variable {plan : Nat → MapCall} {use next final : DomainUse U} {uses : List (Use U)}
  {pool : Option Nat}

/-- A step is a turn of one thread. -/
structure Taken (plan : Nat → MapCall) (use : DomainUse U) (taken : Use U) (thread : Nat)
    (phase : CallPhase U) (entries : List (Nat × Answer U)) (next : DomainUse U) : Prop where
  turn : Turn (plan thread) use.running (use.calls thread) phase next.running entries
  calls : next.calls = Function.update use.calls thread phase
  called : next.called = use.called ++ entries.map fun entry => (thread, entry.1)
  own : ∀ entry ∈ entries, taken = .answer thread entry.1 entry.2

theorem enter_taken (plan : Nat → MapCall) {thread : Nat} (hphase : use.calls thread = .waiting) :
    ∃ phase, Taken plan use (.enter thread) thread phase [] (use.enter thread (plan thread)) := by
  have hrefused : ∀ error : MapInError, error.IsRefusal → ∃ phase,
      Taken plan use (.enter thread) thread phase [] (use.setCall thread (.returned (.error error))) := by
    intro error hrefusal
    refine ⟨_, ?_, rfl, (List.append_nil _).symm, by simp⟩
    rw [hphase]
    exact .refused error hrefusal
  unfold enter
  split
  · exact hrefused _ trivial
  · split
    · exact hrefused _ trivial
    · split
      · exact hrefused _ trivial
      · rename_i hfree
        refine ⟨_, ?_, rfl, (List.append_nil _).symm, by simp⟩
        rw [hphase]
        exact .began (Bool.eq_false_iff.mpr hfree)

theorem answered_taken {thread index : Nat} {answer : Answer U}
    (h : use.answered thread (plan thread) index answer = some next) :
    ∃ phase entries, Taken plan use (.answer thread index answer) thread phase entries next := by
  unfold answered at h
  split at h
  · rename_i outputs hphase
    split at h
    · rename_i hturn
      obtain ⟨rfl, hleft⟩ := hturn
      cases answer with
      | ok value =>
        cases h
        refine ⟨_, [(outputs.length, .ok value)], ?_, rfl, rfl, by simp⟩
        rw [hphase]
        exact .called outputs value hleft
      | error message =>
        cases h
        refine ⟨_, [(outputs.length, .error message)], ?_, rfl, rfl, by simp⟩
        rw [hphase]
        exact .failed outputs message hleft
      | panic =>
        cases h
        refine ⟨_, [(outputs.length, .panic)], ?_, rfl, rfl, by simp⟩
        rw [hphase]
        exact .panicked outputs hleft
    · cases h
  · rename_i results hphase
    split at h
    · rename_i hleft
      cases h
      refine ⟨_, [(index, answer)], ?_, rfl, rfl, by simp⟩
      rw [hphase]
      exact .answered results index answer hleft
    · cases h
  · cases h

theorem finish_taken {thread : Nat} (h : use.finish thread (plan thread) = some next) :
    ∃ phase, Taken plan use (.finish thread) thread phase [] next := by
  unfold finish at h
  split at h
  · rename_i outputs hphase
    split at h
    · rename_i hall
      cases h
      refine ⟨_, ?_, rfl, (List.append_nil _).symm, by simp⟩
      rw [hphase]
      exact .completed outputs hall
    · cases h
  · rename_i results hphase
    split at h
    · rename_i hpanic
      cases h
      refine ⟨_, ?_, rfl, (List.append_nil _).symm, by simp⟩
      rw [hphase]
      exact .unwound results hpanic
    · obtain ⟨answers, hall, rfl⟩ := Option.map_eq_some_iff.mp h
      refine ⟨_, ?_, rfl, (List.append_nil _).symm, by simp⟩
      rw [hphase]
      exact .gathered results answers hall
  · cases h

theorem step_taken {taken : Use U} (h : step plan use taken = some next) :
    ∃ thread phase entries, Taken plan use taken thread phase entries next := by
  cases taken with
  | tryAdmit thread =>
    simp only [step] at h
    split at h
    · rename_i hphase
      split at h
      · rename_i htaken
        cases h
        refine ⟨thread, .waiting, [], ?_, ?_, (List.append_nil _).symm, by simp⟩
        · rw [hphase, htaken]
          exact .blocked rfl
        · rw [← hphase, Function.update_eq_self]
      · rename_i hfree
        cases h
        refine ⟨thread, _, [], ?_, rfl, (List.append_nil _).symm, by simp⟩
        rw [hphase]
        exact .admitted (Bool.eq_false_iff.mpr hfree)
    · cases h
  | leave thread =>
    simp only [step] at h
    split at h
    · rename_i hphase
      cases h
      refine ⟨thread, _, [], ?_, rfl, (List.append_nil _).symm, by simp⟩
      rw [hphase]
      exact .left
    · cases h
  | enter thread =>
    simp only [step] at h
    split at h
    · rename_i hphase
      cases h
      obtain ⟨phase, htaken⟩ := enter_taken plan hphase
      exact ⟨thread, phase, [], htaken⟩
    · cases h
  | answer thread index answer =>
    obtain ⟨phase, entries, htaken⟩ := answered_taken h
    exact ⟨thread, phase, entries, htaken⟩
  | finish thread =>
    obtain ⟨phase, htaken⟩ := finish_taken h
    exact ⟨thread, phase, [], htaken⟩

end DomainUse

/-! ## The admission slot -/

/-- The thread has the slot. -/
def CallPhase.busy : CallPhase U → Prop
  | .holding => True
  | .inOrder _ => True
  | .outer _ => True
  | _ => False

namespace DomainUse

variable {plan : Nat → MapCall} {use next final : DomainUse U} {uses : List (Use U)}
  {pool : Option Nat}

/-- The slot is taken where one thread has it. -/
structure Exclusive (use : DomainUse U) : Prop where
  one : ∀ thread other, (use.calls thread).busy → (use.calls other).busy → thread = other
  flag : use.running = true ↔ ∃ thread, (use.calls thread).busy

theorem Exclusive.no_other (h : use.Exclusive) (hfree : use.running = false) (thread : Nat) :
    ¬(use.calls thread).busy := fun hbusy => by
  cases hfree.symm.trans (h.flag.mpr ⟨thread, hbusy⟩)

/-- A thread moves on that keeps the slot, or does not have it. -/
theorem Exclusive.move (h : use.Exclusive) {thread : Nat} {phase : CallPhase U}
    (hcalls : next.calls = Function.update use.calls thread phase)
    (hrunning : next.running = use.running) (hbusy : phase.busy ↔ (use.calls thread).busy) :
    next.Exclusive := by
  have hsame : ∀ other, (next.calls other).busy ↔ (use.calls other).busy := by
    intro other
    rw [hcalls]
    by_cases heq : other = thread
    · rw [heq, Function.update_self]
      exact hbusy
    · rw [Function.update_of_ne heq]
  refine ⟨fun first second hfirst hsecond => ?_, ?_⟩
  · exact h.one first second ((hsame first).mp hfirst) ((hsame second).mp hsecond)
  · rw [hrunning, h.flag]
    exact exists_congr fun other => (hsame other).symm

/-- A thread takes the slot. -/
theorem Exclusive.take (h : use.Exclusive) {thread : Nat} {phase : CallPhase U}
    (hfree : use.running = false) (hcalls : next.calls = Function.update use.calls thread phase)
    (hrunning : next.running = true) (hbusy : phase.busy) : next.Exclusive := by
  have honly : ∀ other, (next.calls other).busy → other = thread := by
    intro other hother
    by_contra hne
    rw [hcalls, Function.update_of_ne hne] at hother
    exact h.no_other hfree other hother
  refine ⟨fun first second hfirst hsecond => ?_, fun _ => ⟨thread, ?_⟩, fun _ => hrunning⟩
  · rw [honly first hfirst, honly second hsecond]
  · rw [hcalls, Function.update_self]
    exact hbusy

/-- The thread that has the slot gives it back. -/
theorem Exclusive.release (h : use.Exclusive) {thread : Nat} {phase : CallPhase U}
    (hheld : (use.calls thread).busy) (hcalls : next.calls = Function.update use.calls thread phase)
    (hrunning : next.running = false) (hbusy : ¬phase.busy) : next.Exclusive := by
  have hnone : ∀ other, ¬(next.calls other).busy := by
    intro other hother
    rw [hcalls] at hother
    by_cases heq : other = thread
    · rw [heq, Function.update_self] at hother
      exact hbusy hother
    · rw [Function.update_of_ne heq] at hother
      exact heq (h.one other thread hother hheld)
  refine ⟨fun first _ hfirst => absurd hfirst (hnone first), ?_⟩
  rw [hrunning]
  exact ⟨fun hfalse => (nomatch hfalse), fun ⟨other, hother⟩ => absurd hother (hnone other)⟩

theorem Exclusive.taken (h : use.Exclusive) {taken : Use U} {thread : Nat} {phase : CallPhase U}
    {entries : List (Nat × Answer U)} (htaken : Taken plan use taken thread phase entries next) :
    next.Exclusive := by
  obtain ⟨hturn, hcalls, -, -⟩ := htaken
  generalize hphase : use.calls thread = before at hturn
  generalize hflag : next.running = flag at hturn
  have hmove := fun hkept => h.move hcalls (hflag.trans hkept)
  have htake := fun hfree => h.take hfree hcalls
  have hrelease := fun hheld => h.release hheld hcalls
  rw [hphase] at hmove hrelease
  cases hturn with
  | blocked hrunning => exact hmove hrunning.symm Iff.rfl
  | admitted hfree => exact htake hfree hflag trivial
  | left => exact hrelease trivial hflag id
  | refused error hrefusal => exact hmove rfl Iff.rfl
  | began hfree =>
    refine htake hfree hflag ?_
    unfold CallPhase.begin
    split <;> trivial
  | called outputs value hleft => exact hmove rfl Iff.rfl
  | failed outputs message hleft => exact hrelease trivial hflag id
  | panicked outputs hleft => exact hrelease trivial hflag id
  | answered results index answer hleft => exact hmove rfl Iff.rfl
  | completed outputs hall => exact hrelease trivial hflag id
  | gathered results answers hall => exact hrelease trivial hflag id
  | unwound results hpanic => exact hrelease trivial hflag id

theorem exclusive_free (pool : Option Nat) : (free pool : DomainUse U).Exclusive := by
  refine ⟨fun _ _ hbusy => hbusy.elim, ?_⟩
  exact ⟨fun hfalse => (nomatch hfalse), fun ⟨_, hbusy⟩ => hbusy.elim⟩

end DomainUse

/-! ## The callbacks of a call -/

/-- The thread has not called a callback. -/
def CallPhase.Idle : CallPhase U → Prop
  | .waiting => True
  | .holding => True
  | .returned (.error error) => error.IsRefusal
  | _ => False

/-- The callbacks of the thread in the log stand in one block. -/
def Contiguous (log : List (Nat × Nat)) (thread : Nat) : Prop :=
  ∃ before own after, log = before ++ own ++ after ∧ (∀ entry ∈ before, entry.1 ≠ thread) ∧
    (∀ entry ∈ own, entry.1 = thread) ∧ ∀ entry ∈ after, entry.1 ≠ thread

/-- The callbacks of the thread are the last of the log. -/
def Trailing (log : List (Nat × Nat)) (thread : Nat) : Prop :=
  ∃ before own, log = before ++ own ∧ (∀ entry ∈ before, entry.1 ≠ thread) ∧
    ∀ entry ∈ own, entry.1 = thread

theorem Trailing.contiguous {log : List (Nat × Nat)} {thread : Nat} (h : Trailing log thread) :
    Contiguous log thread := by
  obtain ⟨before, own, hlog, hbefore, hown⟩ := h
  exact ⟨before, own, [], by rw [hlog, List.append_nil], hbefore, hown, by simp⟩

theorem trailing_of_absent {log : List (Nat × Nat)} {thread : Nat}
    (h : ∀ entry ∈ log, entry.1 ≠ thread) : Trailing log thread :=
  ⟨log, [], (List.append_nil _).symm, h, by simp⟩

theorem Trailing.append {log more : List (Nat × Nat)} {thread : Nat} (h : Trailing log thread)
    (hmore : ∀ entry ∈ more, entry.1 = thread) : Trailing (log ++ more) thread := by
  obtain ⟨before, own, rfl, hbefore, hown⟩ := h
  refine ⟨before, own ++ more, List.append_assoc .., hbefore, fun entry hentry => ?_⟩
  exact (List.mem_append.mp hentry).elim (hown entry) (hmore entry)

theorem Contiguous.append {log more : List (Nat × Nat)} {thread : Nat} (h : Contiguous log thread)
    (hmore : ∀ entry ∈ more, entry.1 ≠ thread) : Contiguous (log ++ more) thread := by
  obtain ⟨before, own, after, rfl, hbefore, hown, hafter⟩ := h
  refine ⟨before, own, after ++ more, List.append_assoc .., hbefore, hown, fun entry hentry => ?_⟩
  exact (List.mem_append.mp hentry).elim (hafter entry) (hmore entry)

namespace Turn

variable {call : MapCall} {running flag : Bool} {before phase : CallPhase U}
  {entries : List (Nat × Answer U)}

/-- Only a thread that has the slot calls a callback. -/
theorem busy_of_called (h : Turn call running before phase flag entries) (hne : entries ≠ []) :
    before.busy := by
  cases h with
  | called | failed | panicked | answered => trivial
  | blocked | admitted | left | refused | began | completed | gathered | unwound =>
    exact absurd rfl hne

theorem busy_before (h : Turn call running before phase flag entries) (hbusy : phase.busy) :
    before.busy ∨ before.Idle := by
  cases h with
  | blocked | admitted | refused | began => exact .inr trivial
  | left | called | failed | panicked | answered | completed | gathered | unwound =>
    exact .inl trivial

theorem idle_before (h : Turn call running before phase flag entries) (hidle : phase.Idle) :
    before.Idle ∧ entries = [] := by
  cases h with
  | blocked | admitted | left | refused | began => exact ⟨trivial, rfl⟩
  | called | failed | panicked | answered | completed | unwound => exact hidle.elim
  | gathered results answers hall =>
    cases hfound : mapOutcomes answers with
    | ok values =>
      rw [hfound] at hidle
      exact hidle.elim
    | error failure =>
      rw [hfound] at hidle
      exact hidle.elim

end Turn

namespace DomainUse

variable {plan : Nat → MapCall} {use next final : DomainUse U} {uses : List (Use U)}
  {pool : Option Nat}

/-- The callbacks of each thread stand together, last while it has the slot. -/
structure Blocks (use : DomainUse U) : Prop where
  contiguous : ∀ thread, Contiguous use.called thread
  last : ∀ thread, (use.calls thread).busy → Trailing use.called thread
  absent : ∀ thread, (use.calls thread).Idle → ∀ entry ∈ use.called, entry.1 ≠ thread

theorem Blocks.taken (h : use.Blocks) (hexclusive : use.Exclusive) {taken : Use U} {thread : Nat}
    {phase : CallPhase U} {entries : List (Nat × Answer U)}
    (htaken : Taken plan use taken thread phase entries next) : next.Blocks := by
  obtain ⟨hturn, hcalls, hcalled, -⟩ := htaken
  have hmine : ∀ entry ∈ entries.map fun entry => (thread, entry.1), entry.1 = thread := by
    intro entry hentry
    obtain ⟨item, -, rfl⟩ := List.mem_map.mp hentry
    rfl
  have hothers : ∀ other, other ≠ thread →
      ∀ entry ∈ entries.map fun entry => (thread, entry.1), entry.1 ≠ other :=
    fun other hne entry hentry heq => hne (heq.symm.trans (hmine entry hentry))
  have hself : next.calls thread = phase := by rw [hcalls, Function.update_self]
  have hrest : ∀ other, other ≠ thread → next.calls other = use.calls other := by
    intro other hne
    rw [hcalls, Function.update_of_ne hne]
  -- The callbacks of the thread were the last before the step, if it calls one.
  have htrailing : phase.busy ∨ entries ≠ [] → Trailing next.called thread := by
    intro hcase
    rw [hcalled]
    refine Trailing.append ?_ hmine
    have hbefore : (use.calls thread).busy ∨ (use.calls thread).Idle :=
      hcase.elim hturn.busy_before fun hne => .inl (hturn.busy_of_called hne)
    exact hbefore.elim (h.last thread) fun hidle => trailing_of_absent (h.absent thread hidle)
  refine ⟨fun other => ?_, fun other hbusy => ?_, fun other hidle => ?_⟩
  · by_cases heq : other = thread
    · subst heq
      by_cases hempty : entries = []
      · rw [hcalled, hempty, List.map_nil, List.append_nil]
        exact h.contiguous other
      · exact (htrailing (.inr hempty)).contiguous
    · rw [hcalled]
      exact (h.contiguous other).append (hothers other heq)
  · by_cases heq : other = thread
    · subst heq
      exact htrailing (.inl (hself ▸ hbusy))
    · rw [hrest other heq] at hbusy
      have hempty : entries = [] := by
        by_contra hne
        exact heq (hexclusive.one other thread hbusy (hturn.busy_of_called hne))
      rw [hcalled, hempty, List.map_nil, List.append_nil]
      exact h.last other hbusy
  · by_cases heq : other = thread
    · subst heq
      obtain ⟨hbefore, hempty⟩ := hturn.idle_before (hself ▸ hidle)
      rw [hcalled, hempty, List.map_nil, List.append_nil]
      exact h.absent other hbefore
    · rw [hrest other heq] at hidle
      intro entry hentry
      rw [hcalled] at hentry
      exact (List.mem_append.mp hentry).elim (h.absent other hidle entry) (hothers other heq entry)

/-- In every run of calls on one domain, nested and refused ones too, one thread at most has the
    domain, the slot is taken exactly while one has, the callbacks of a call are never mixed with
    those of another, and a call that is refused calls none. -/
theorem mapIn_exclusive (hrun : exec (step plan) (free pool) uses = some final) :
    (∀ thread other, (final.calls thread).busy → (final.calls other).busy → thread = other) ∧
      (final.running = true ↔ ∃ thread, (final.calls thread).busy) ∧
      (∀ thread, Contiguous final.called thread) ∧
      ∀ thread error, final.calls thread = .returned (.error error) → error.IsRefusal →
        ∀ entry ∈ final.called, entry.1 ≠ thread := by
  have hinv : final.Exclusive ∧ final.Blocks := by
    refine exec_invariant_all (fun use => use.Exclusive ∧ use.Blocks)
      (fun use taken next h hstep => ?_) ⟨exclusive_free pool, ?_⟩ hrun
    · obtain ⟨thread, phase, entries, htaken⟩ := step_taken hstep
      exact ⟨h.1.taken htaken, h.2.taken h.1 htaken⟩
    · refine ⟨fun thread => (trailing_of_absent (by simp [free])).contiguous, ?_, by simp [free]⟩
      exact fun thread hbusy => hbusy.elim
  obtain ⟨hexclusive, hblocks⟩ := hinv
  refine ⟨hexclusive.one, hexclusive.flag, hblocks.contiguous, fun thread error hphase hrefused => ?_⟩
  exact hblocks.absent thread (by rw [hphase]; exact hrefused)

end DomainUse

namespace Sample

/-- A call of two items in the pool, and one of a single item from outside. -/
def plan : Nat → MapCall
  | 0 => ⟨.outer, 2, none⟩
  | _ => ⟨.sequential, 1, some 7⟩

/-- The second call comes while the first is at work, from one of its callbacks. -/
def nestedUses : List (Use String) :=
  [.enter 0, .answer 0 1 (.ok "b"), .enter 1, .answer 0 0 .panic, .finish 0]

theorem nested_exclusive :
    ∃ final, exec (DomainUse.step plan) (.free (some 7)) nestedUses = some final ∧
      final.running = false ∧ ∀ entry ∈ final.called, entry.1 ≠ 1 := by
  obtain ⟨-, -, -, hrefused⟩ := DomainUse.mapIn_exclusive
    (show exec (DomainUse.step plan) (.free (some 7)) nestedUses = some _ from rfl)
  exact ⟨_, rfl, rfl, hrefused 1 .domainBusy rfl trivial⟩

end Sample

/-! ## What a map returns -/

/-- The answer of a callback that does not panic. -/
def Answer.of : Except String U → Answer U
  | .ok value => .ok value
  | .error message => .error message

/-- The callbacks answer what `f` gives for their thread and index. -/
def Use.Follows (f : Nat → Nat → Except String U) : Use U → Prop
  | .answer thread index value => value = .of (f thread index)
  | _ => True

/-- The number of callbacks of a map in order that returned the result. -/
def MapCall.reached (call : MapCall) : Except MapInError (List U) → Nat
  | .error (.callback index _) => index + 1
  | _ => call.count

theorem mapOutcomes_values (values : List U) : mapOutcomes (values.map .ok) = .ok values := by
  induction values with
  | nil => rfl
  | cons value rest ih => rw [List.map_cons, mapOutcomes, ih]

theorem mapOutcomes_failure (values : List U) (message : String) (rest : List (Except String U)) :
    mapOutcomes (values.map .ok ++ .error message :: rest) =
      .error (values.length, truncateMessage message) := by
  induction values with
  | nil => rfl
  | cons value values ih =>
    rw [List.map_cons, List.cons_append, mapOutcomes, ih]
    rfl

theorem collected_some {results : List (Option (Answer U))} {answers : List (Except String U)}
    (h : collected results = some answers) :
    results = answers.map fun answer => some (.of answer) := by
  induction results generalizing answers with
  | nil =>
    cases h
    rfl
  | cons result rest ih =>
    match result, h with
    | some (.ok value), h =>
      obtain ⟨tail, htail, rfl⟩ := Option.map_eq_some_iff.mp h
      rw [ih htail]
      rfl
    | some (.error message), h =>
      obtain ⟨tail, htail, rfl⟩ := Option.map_eq_some_iff.mp h
      rw [ih htail]
      rfl

theorem Answer.of_injective : Function.Injective (Answer.of (U := U)) := by
  intro first second h
  cases first <;> cases second <;> cases h <;> rfl

/-- What the phase of a call says about its callbacks, and about its result. -/
def CallPhase.Meant (call : MapCall) (f : Nat → Except String U) (called : List Nat) :
    CallPhase U → Prop
  | .waiting => called = []
  | .holding => called = []
  | .inOrder outputs => call.mode ≠ .outer ∧ outputs.length ≤ call.count ∧
      called = List.range outputs.length ∧ outputs.map .ok = (List.range outputs.length).map f
  | .outer results => call.mode = .outer ∧ results.length = call.count ∧ called.Nodup ∧
      (∀ index, index ∈ called ↔ ∃ answer, results[index]? = some (some answer)) ∧
      ∀ (index : Nat) (answer : Answer U),
        results[index]? = some (some answer) → answer = .of (f index)
  | .returned result =>
      (∃ error, result = .error error ∧ error.IsRefusal) ∨
        result = mapResult (mapOutcomes ((List.range call.count).map f)) ∧
          (call.mode = .outer → called.Perm (List.range call.count)) ∧
          (call.mode ≠ .outer → called = List.range (call.reached result))
  | .unwound => False

/-- The items in order, from a given one on. -/
theorem range_from {count index : Nat} (h : index < count) :
    List.range count =
      List.range index ++ index :: (List.range (count - index - 1)).map (index + 1 + ·) := by
  have hsplit : count = index + 1 + (count - index - 1) := by omega
  calc List.range count
      = List.range (index + 1) ++ (List.range (count - index - 1)).map (index + 1 + ·) := by
        rw [hsplit, List.range_add]
        congr 3
        omega
    _ = _ := by rw [List.range_succ, List.append_assoc, List.singleton_append]

namespace Turn

variable {call : MapCall} {running flag : Bool} {before phase : CallPhase U}
  {entries : List (Nat × Answer U)} {f : Nat → Except String U} {called : List Nat}

theorem meant_called (outputs : List U) (value : U) (hleft : outputs.length < call.count)
    (hvalue : f outputs.length = .ok value)
    (h : (CallPhase.inOrder outputs).Meant call f called) :
    (CallPhase.inOrder (outputs ++ [value])).Meant call f (called ++ [outputs.length]) := by
  obtain ⟨hmode, -, hcalled, houtputs⟩ := h
  refine ⟨hmode, ?_, ?_, ?_⟩
  · rw [List.length_append, List.length_singleton]
    exact hleft
  · rw [List.length_append, List.length_singleton, List.range_succ, hcalled]
  · rw [List.map_append, List.length_append, List.length_singleton, List.range_succ,
      List.map_append, houtputs, List.map_singleton, List.map_singleton, hvalue]

theorem meant_failed (outputs : List U) (message : String) (hleft : outputs.length < call.count)
    (hmessage : f outputs.length = .error message)
    (h : (CallPhase.inOrder outputs).Meant call f called) :
    (CallPhase.returned (.error (.callback outputs.length (truncateMessage message)))).Meant
      (U := U) call f (called ++ [outputs.length]) := by
  obtain ⟨hmode, -, hcalled, houtputs⟩ := h
  refine .inr ⟨?_, fun houter => absurd houter hmode, fun _ => ?_⟩
  · rw [range_from hleft, List.map_append, List.map_cons, ← houtputs, hmessage,
      mapOutcomes_failure]
    rfl
  · rw [MapCall.reached, List.range_succ, hcalled]

theorem meant_answered (results : List (Option (Answer U))) (index : Nat)
    (hleft : results[index]? = some none) (h : (CallPhase.outer results).Meant call f called) :
    (CallPhase.outer (results.set index (some (.of (f index))))).Meant call f
      (called ++ [index]) := by
  obtain ⟨hmode, hlength, honce, hmem, hvalues⟩ := h
  have hinside : index < results.length := (List.getElem?_eq_some_iff.mp hleft).1
  have hfresh : index ∉ called := by
    intro hin
    obtain ⟨answer, hanswer⟩ := (hmem index).mp hin
    rw [hleft] at hanswer
    cases hanswer
  refine ⟨hmode, by rw [List.length_set, hlength], ?_, fun item => ?_, fun item answer hanswer => ?_⟩
  · rw [List.nodup_append]
    refine ⟨honce, List.nodup_singleton index, fun first hfirst second hsecond => ?_⟩
    rw [List.mem_singleton.mp hsecond]
    exact fun heq => hfresh (heq ▸ hfirst)
  · rw [List.mem_append, List.mem_singleton, hmem]
    by_cases heq : item = index
    · subst heq
      simp [hinside]
    · rw [List.getElem?_set_ne (Ne.symm heq)]
      simp [heq]
  · by_cases heq : item = index
    · subst heq
      rw [List.getElem?_set_self hinside] at hanswer
      cases hanswer
      rfl
    · rw [List.getElem?_set_ne (Ne.symm heq)] at hanswer
      exact hvalues item answer hanswer

theorem meant_completed (outputs : List U) (hall : outputs.length = call.count)
    (h : (CallPhase.inOrder outputs).Meant call f called) :
    (CallPhase.returned (.ok outputs)).Meant call f called := by
  obtain ⟨hmode, -, hcalled, houtputs⟩ := h
  rw [hall] at hcalled houtputs
  refine .inr ⟨?_, fun houter => absurd houter hmode, fun _ => hcalled⟩
  rw [← houtputs, mapOutcomes_values]
  rfl

theorem meant_gathered (results : List (Option (Answer U))) (answers : List (Except String U))
    (hall : collected results = some answers) (h : (CallPhase.outer results).Meant call f called) :
    (CallPhase.returned (mapResult (mapOutcomes answers))).Meant call f called := by
  obtain ⟨hmode, hlength, honce, hmem, hvalues⟩ := h
  have hresults := collected_some hall
  have hcount : answers.length = call.count := by
    rw [← hlength, hresults, List.length_map]
  have hanswers : answers = (List.range call.count).map f := by
    refine List.ext_getElem? fun index => ?_
    by_cases hinside : index < call.count
    · have hat : results[index]? = some (some (.of answers[index])) := by
        rw [hresults, List.getElem?_map, List.getElem?_eq_getElem (hcount ▸ hinside)]
        rfl
      rw [List.getElem?_map, List.getElem?_range hinside,
        List.getElem?_eq_getElem (hcount ▸ hinside),
        Answer.of_injective (hvalues index _ hat)]
      rfl
    · rw [List.getElem?_eq_none (by omega), List.getElem?_eq_none (by simpa using hinside)]
  refine .inr ⟨by rw [hanswers], fun _ => ?_, fun hne => absurd hmode hne⟩
  refine (List.perm_ext_iff_of_nodup honce List.nodup_range).mpr fun index => ?_
  rw [hmem, List.mem_range, hresults]
  constructor
  · rintro ⟨answer, hanswer⟩
    have hinside := (List.getElem?_eq_some_iff.mp hanswer).1
    rw [List.length_map] at hinside
    omega
  · intro hinside
    exact ⟨.of (answers.get ⟨index, by omega⟩), by simp [hcount, hinside]⟩

/-- A turn keeps what the phases of a call say, when its callback answers what `f` gives. -/
theorem meant (h : Turn call running before phase flag entries)
    (hanswers : ∀ entry ∈ entries, entry.2 = .of (f entry.1)) (hbefore : before.Meant call f called) :
    phase.Meant call f (called ++ entries.map Prod.fst) := by
  cases h with
  | blocked | admitted | left =>
    rw [List.map_nil, List.append_nil]
    exact hbefore
  | refused error hrefusal => exact .inl ⟨error, rfl, hrefusal⟩
  | began =>
    obtain ⟨mode, count, worker⟩ := call
    cases hbefore
    cases mode with
    | outer => exact ⟨rfl, List.length_replicate, List.nodup_nil, by simp [List.getElem?_replicate],
        by simp [List.getElem?_replicate]⟩
    | sequential | inner => exact ⟨by simp, Nat.zero_le _, rfl, rfl⟩
  | called outputs value hleft =>
    have hvalue : .of (.ok value) = Answer.of (f outputs.length) := hanswers _ List.mem_cons_self
    exact meant_called outputs value hleft (Answer.of_injective hvalue).symm hbefore
  | failed outputs message hleft =>
    have hmessage : .of (.error message) = Answer.of (f outputs.length) :=
      hanswers _ List.mem_cons_self
    exact meant_failed outputs message hleft (Answer.of_injective hmessage).symm hbefore
  | panicked outputs hleft =>
    have hpanic := hanswers _ List.mem_cons_self
    cases hf : f outputs.length <;> rw [hf] at hpanic <;> cases hpanic
  | answered results index answer hleft =>
    obtain rfl : answer = .of (f index) := hanswers _ List.mem_cons_self
    exact meant_answered results index hleft hbefore
  | completed outputs hall => simpa using meant_completed outputs hall hbefore
  | gathered results answers hall => simpa using meant_gathered results answers hall hbefore
  | unwound results hpanic =>
    obtain ⟨-, -, -, -, hvalues⟩ := hbefore
    obtain ⟨result, hresult, hany⟩ := List.any_eq_true.mp hpanic
    obtain ⟨index, hindex⟩ := List.getElem?_of_mem hresult
    match result, hany with
    | some .panic, _ =>
      have hanswer := hvalues index .panic hindex
      cases hf : f index <;> rw [hf] at hanswer <;> cases hanswer

end Turn

namespace DomainUse

variable {plan : Nat → MapCall} {use next final : DomainUse U} {uses : List (Use U)}
  {pool : Option Nat} {f : Nat → Nat → Except String U}

theorem Taken.calledBy_self {taken : Use U} {thread : Nat} {phase : CallPhase U}
    {entries : List (Nat × Answer U)} (h : Taken plan use taken thread phase entries next) :
    next.calledBy thread = use.calledBy thread ++ entries.map Prod.fst := by
  have hown : (entries.map fun entry => (thread, entry.1)).filter (fun entry => entry.1 = thread) =
      entries.map fun entry => (thread, entry.1) := by
    refine List.filter_eq_self.mpr fun entry hentry => ?_
    obtain ⟨item, -, rfl⟩ := List.mem_map.mp hentry
    exact decide_eq_true rfl
  rw [calledBy, calledBy, h.called, List.filter_append, List.map_append, hown, List.map_map]
  rfl

theorem Taken.calledBy_of_ne {taken : Use U} {thread other : Nat} {phase : CallPhase U}
    {entries : List (Nat × Answer U)} (h : Taken plan use taken thread phase entries next)
    (hne : other ≠ thread) : next.calledBy other = use.calledBy other := by
  have hnone : (entries.map fun entry => (thread, entry.1)).filter (fun entry => entry.1 = other) =
      [] := by
    refine List.filter_eq_nil_iff.mpr fun entry hentry => ?_
    obtain ⟨item, -, rfl⟩ := List.mem_map.mp hentry
    simpa using Ne.symm hne
  rw [calledBy, calledBy, h.called, List.filter_append, hnone, List.append_nil]

/-- In every run of calls on one domain, in every order, with callbacks that do not panic: what a
    call returns that was not refused is what its callbacks give one after the other, in every
    mode. `Outer` calls each callback once; the other modes call them in order, up to the first
    failure. -/
theorem mapIn_meaning (hfollows : ∀ taken ∈ uses, taken.Follows f)
    (hrun : exec (step plan) (free pool) uses = some final) (thread : Nat) :
    final.calls thread ≠ .unwound ∧ ∀ result, final.calls thread = .returned result →
      (∃ error, result = .error error ∧ error.IsRefusal) ∨
        result = mapResult (mapOutcomes ((List.range (plan thread).count).map (f thread))) ∧
          ((plan thread).mode = .outer →
            (final.calledBy thread).Perm (List.range (plan thread).count)) ∧
          ((plan thread).mode ≠ .outer →
            final.calledBy thread = List.range ((plan thread).reached result)) := by
  have hmeant : ∀ thread,
      (final.calls thread).Meant (plan thread) (f thread) (final.calledBy thread) := by
    refine exec_invariant
      (fun use => ∀ thread, (use.calls thread).Meant (plan thread) (f thread) (use.calledBy thread))
      (fun use taken next h hfollow hstep other => ?_) (fun _ => rfl)
      (along_of_forall hfollows (step plan) (free pool)) hrun
    obtain ⟨thread, phase, entries, htaken⟩ := step_taken hstep
    by_cases heq : other = thread
    · subst heq
      rw [htaken.calledBy_self, htaken.calls, Function.update_self]
      refine htaken.turn.meant (fun entry hentry => ?_) (h other)
      rw [htaken.own entry hentry] at hfollow
      exact hfollow
    · rw [htaken.calledBy_of_ne heq, htaken.calls, Function.update_of_ne heq]
      exact h other
  refine ⟨fun hphase => ?_, fun result hphase => ?_⟩
  · have hunwound := hmeant thread
    rw [hphase] at hunwound
    exact hunwound
  · have hreturned := hmeant thread
    rw [hphase] at hreturned
    exact hreturned

end DomainUse

namespace Sample

/-- The callbacks of the first call, the last of which fails. -/
def callbacks : Nat → Nat → Except String String
  | 0, 1 => .error "late"
  | _, _ => .ok "a"

/-- The first call runs its callbacks in the other order, and the second comes after it. -/
def outerUses : List (Use String) :=
  [.enter 0, .answer 0 1 (.error "late"), .answer 0 0 (.ok "a"), .finish 0, .enter 1,
    .answer 1 0 (.ok "a"), .finish 1]

theorem outer_meaning :
    ∃ final, exec (DomainUse.step plan) (.free (some 7)) outerUses = some final ∧
      final.calledBy 0 ≠ [0, 1] ∧ (final.calledBy 0).Perm [0, 1] := by
  obtain ⟨-, hreturned⟩ := DomainUse.mapIn_meaning (f := callbacks)
    (by simp [outerUses, Use.Follows, callbacks, Answer.of])
    (show exec (DomainUse.step plan) (.free (some 7)) outerUses = some _ from rfl) 0
  refine ⟨_, rfl, by decide, ?_⟩
  obtain ⟨error, herror, hrefused⟩ | ⟨-, hperm, -⟩ := hreturned _ rfl
  · cases herror
    exact hrefused.elim
  · exact hperm rfl

end Sample

end Hataori.Local
