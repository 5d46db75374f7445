import Hataori.Lib.Machine
import Hataori.Runtime.Frames

/-!
# Promises

`Promise` and `RemoteFuture` of `hataori-runtime/src/pending.rs` and the places of `runtime.rs`
that put a call into the pending table or take it out, with everything that other threads do
between two of their steps. `spawn_inner` holds the work gate while it checks the state, inserts
and submits, but `fail` does not ask for the gate. An entry that was taken out is completed
later. A future that is dropped looks at its promise first and cancels its request then.
-/

namespace Hataori.Runtime

open Lib.Maps Lib.Machine

/-! ## Calls -/

/-- What a promise is completed with. -/
abbrev Answer := Except RuntimeError ActionValue

/-- `Promise`, without the waker. -/
structure Promise where
  result : Option Answer
  done : Bool

namespace Promise

/-- `Promise::new`. -/
def new : Promise := ⟨none, false⟩

/-- `Promise::complete`. -/
def complete (promise : Promise) (answer : Answer) : Promise :=
  if promise.result.isNone && !promise.done then ⟨some answer, true⟩ else promise

/-- `Promise::poll`. -/
def poll (promise : Promise) : Option Answer × Promise :=
  (promise.result, { promise with result := none })

end Promise

/-- Where the future of a call is. -/
inductive CallStage where
  /-- `spawn_inner` has inserted the entry and not submitted the request. -/
  | spawning
  /-- `spawn_inner` returned an error. -/
  | refused
  | waiting
  /-- `Drop` found the promise not done and has not cancelled the request. -/
  | dropping
  | dropped
  | finished
  /-- The future is finished, and its request was sent once more. -/
  | resent
  deriving DecidableEq, Repr

namespace CallStage

/-- The future is there, or its `spawn_inner` is not done. -/
def isOpen : CallStage → Bool
  | .spawning | .waiting | .dropping => true
  | _ => false

/-- The request of the call belongs to it. -/
def claims : CallStage → Bool
  | .spawning | .waiting | .dropping | .finished => true
  | _ => false

/-- The future came to an answer. -/
def isOver : CallStage → Bool
  | .finished | .resent => true
  | _ => false

theorem claims_of_isOpen {stage : CallStage} (h : stage.isOpen = true) : stage.claims = true := by
  cases stage <;> first | rfl | cases h

end CallStage

/-- A promise with its future. -/
structure PendingCall where
  request : RequestId
  promise : Promise
  stage : CallStage

/-- The work gate. -/
inductive Gate where
  | free
  /-- `spawn_inner` has found the runtime running and has the request of its call. -/
  | checked (request : RequestId)
  /-- `spawn_inner` has inserted this call. -/
  | inserted (call : Nat)
  /-- `shutdown` has drained the table, or the drop of the runtime. -/
  | closing (ends : Bool)

/-- How far `shutdown` is. -/
inductive Course where
  | running
  /-- It has let go of the gate. -/
  | ending
  | closed
  deriving DecidableEq, Repr

/-- The calls of a runtime by the order of their insertion: `holder` has the promise of each entry
    of the table, and `taken` those of the entries that the thread of the runtime has taken and
    will complete. No step reads what was completed and what the futures came to. -/
structure Desk where
  localId : LocalityId
  state : RuntimeState
  gate : Gate
  course : Course
  nextRequest : Nat
  table : PendingTable
  holder : RequestId → Nat
  calls : List PendingCall
  taken : List (Nat × Answer)
  completed : List (Nat × Answer)
  yielded : List (Nat × Answer)

namespace Desk

/-- A runtime that has just started. -/
def start (localId : LocalityId) (limit : Nat) : Desk :=
  { localId := localId
    state := .running
    gate := .free
    course := .running
    nextRequest := 1
    table := ⟨∅, limit⟩
    holder := fun _ => 0
    calls := []
    taken := []
    completed := []
    yielded := [] }

/-- The call at `index` goes on. -/
def setCall (desk : Desk) (index : Nat) (call : PendingCall) : Desk :=
  { desk with calls := desk.calls.set index call }

/-- Entries are taken out of the table. -/
def take (desk : Desk) (requests : List RequestId) (table : PendingTable)
    (answer : RequestId → Answer) : Desk :=
  { desk with
    table := table
    taken := requests.map fun request => (desk.holder request, answer request) }

/-- All entries are taken out of the table. -/
def drain (desk : Desk) (error : RuntimeError) : Desk :=
  desk.take desk.table.entries.keys desk.table.drain.2 fun _ => .error error

/-- `Runtime::fail`. -/
def fail (desk : Desk) (error : RuntimeError) : Desk :=
  { desk.drain error with state := .failed }

/-- `Runtime::shutdown` and the drop of a runtime, up to the gate. -/
def close (desk : Desk) (ends : Bool) : Desk :=
  { desk.drain .shutdown with
    state := .draining
    gate := .closing ends
    course := .closed }

/-- `Runtime::expire_pending`. -/
def expire (desk : Desk) (now : Nat) : Desk :=
  desk.take
    (desk.table.entries.keys.filter fun request =>
      (desk.table.entries.lookup request).any fun entry => decide (entry.expiresAt ≤ now))
    (desk.table.expired now).2 fun request => .error (.deadlineExceeded request)

/-- `Runtime::complete_pending`, and `handle_completion` of a local call. After an error the table
    is as it was, and the caller fails. -/
def respond (desk : Desk) (request : RequestId) (source : LocalityId) (action : ActionId)
    (answer : Answer) : Desk :=
  match desk.table.takeChecked request source action with
  | .ok (some _, table) => desk.take [request] table fun _ => answer
  | _ => desk

/-- `dispatch_local` and `handle_transport_event` of a call that could not be started or sent. -/
def refuse (desk : Desk) (request : RequestId) (error : RuntimeError) : Desk :=
  match desk.table.remove request with
  | (none, _) => desk
  | (some _, table) => desk.take [request] table fun _ => .error error

/-- `Shared::next_request` in `spawn_inner`. -/
def enter (desk : Desk) : Desk :=
  match checkedSucc desk.nextRequest with
  | none => desk
  | some following =>
    match RequestId.new desk.localId desk.nextRequest with
    | none => { desk with nextRequest := following }
    | some request => { desk with nextRequest := following, gate := .checked request }

/-- `PendingTable::insert` in `spawn_inner`. -/
def insert (desk : Desk) (request : RequestId) (entry : PendingEntry) : Desk :=
  match desk.table.insert request entry with
  | .error _ => { desk with gate := .free }
  | .ok table =>
    { desk with
      gate := .inserted desk.calls.length
      table := table
      holder := Function.update desk.holder request desk.calls.length
      calls := desk.calls ++ [⟨request, .new, .spawning⟩] }

/-- The future of a call goes away, and its entry with it. -/
def withdraw (desk : Desk) (index : Nat) (call : PendingCall) (stage : CallStage) : Desk :=
  { desk.setCall index { call with stage := stage } with
    table := (desk.table.remove call.request).2 }

/-- The end of `spawn_inner`: the request was submitted, or its entry is removed. -/
def submit (desk : Desk) (index : Nat) (call : PendingCall) (accepted : Bool) : Desk :=
  if accepted then
    { desk.setCall index { call with stage := .waiting } with gate := .free }
  else { desk.withdraw index call .refused with gate := .free }

/-- `RemoteFuture::poll`. -/
def poll (desk : Desk) (index : Nat) (call : PendingCall) : Desk :=
  match call.promise.poll with
  | (none, _) => desk
  | (some answer, promise) =>
    { desk.setCall index ⟨call.request, promise, .finished⟩ with
      yielded := desk.yielded ++ [(index, answer)] }

/-- The drop of a `RemoteFuture`, up to its `cancel`. -/
def drop (desk : Desk) (index : Nat) (call : PendingCall) : Desk :=
  desk.setCall index { call with stage := if call.promise.done then .dropped else .dropping }

/-- The promise of an entry that was taken is completed. -/
def complete (desk : Desk) (index : Nat) (answer : Answer) (rest : List (Nat × Answer)) : Desk :=
  { desk with
    calls := desk.calls.modify index fun call =>
      { call with promise := call.promise.complete answer }
    taken := rest
    completed := desk.completed ++ [(index, answer)] }

/-- What can happen next. -/
inductive Event where
  /-- `next_request` for something other than a call. -/
  | issue
  /-- `spawn_inner` of a new request locks the gate and finds the runtime running. -/
  | enter
  /-- The same of the request of a future that is finished. -/
  | reenter (call : Nat)
  /-- `spawn_inner` returns an error before it inserts. -/
  | leave
  | insert (entry : PendingEntry)
  | submit (accepted : Bool)
  | poll (call : Nat)
  | drop (call : Nat)
  /-- `Shared::cancel`. -/
  | cancel (call : Nat)
  | respond (request : RequestId) (source : LocalityId) (action : ActionId) (answer : Answer)
  | refuse (request : RequestId) (error : RuntimeError)
  | expire (now : Nat)
  /-- The entries that were taken are completed in any order. -/
  | complete (position : Nat)
  | fail (error : RuntimeError)
  /-- `fail_committed_migration`, on any thread. -/
  | condemn
  | shutdown
  /-- The drop of the runtime. -/
  | abandon
  /-- The gate is let go of. -/
  | reopen
  /-- `shutdown` comes to its end, in time or not. -/
  | stop (inTime : Bool)

/-- The call at `index`, if its future is at `stage`. -/
def callAt (desk : Desk) (index : Nat) (stage : CallStage) : Option PendingCall :=
  (desk.calls[index]?).filter fun call => decide (call.stage = stage)

/-- One step. The thread of the runtime completes what it has taken before it goes on; whether it
    still does is decided by a state it has read some time before. -/
def step (desk : Desk) : Event → Option Desk
  | .issue => some { desk with nextRequest := (checkedSucc desk.nextRequest).getD desk.nextRequest }
  | .enter =>
    match desk.gate with
    | .free => if desk.state = .running then some desk.enter else none
    | _ => none
  | .reenter index =>
    match desk.gate, desk.callAt index .finished with
    | .free, some call =>
      if desk.state = .running then
        some { desk.setCall index { call with stage := .resent } with
          gate := .checked call.request }
      else none
    | _, _ => none
  | .leave =>
    match desk.gate with
    | .checked _ => some { desk with gate := .free }
    | _ => none
  | .insert entry =>
    match desk.gate with
    | .checked request => some (desk.insert request entry)
    | _ => none
  | .submit accepted =>
    match desk.gate with
    | .inserted index =>
      (desk.callAt index .spawning).map fun call => desk.submit index call accepted
    | _ => none
  | .poll index => (desk.callAt index .waiting).map fun call => desk.poll index call
  | .drop index => (desk.callAt index .waiting).map fun call => desk.drop index call
  | .cancel index => (desk.callAt index .dropping).map fun call =>
      desk.withdraw index call .dropped
  | .respond request source action answer =>
    if desk.taken.isEmpty then some (desk.respond request source action answer) else none
  | .refuse request error =>
    if desk.taken.isEmpty then some (desk.refuse request error) else none
  | .expire now =>
    if desk.taken.isEmpty then some (desk.expire now) else none
  | .complete position =>
    (desk.taken[position]?).map fun pair =>
      desk.complete pair.1 pair.2 (desk.taken.eraseIdx position)
  | .fail error => if desk.taken.isEmpty then some (desk.fail error) else none
  | .condemn => some { desk with state := .failed }
  | .shutdown =>
    match desk.gate with
    | .free =>
      if (desk.state = .running ∨ desk.state = .failed) ∧ desk.course ≠ .ending ∧
          desk.taken.isEmpty then some (desk.close true)
      else none
    | _ => none
  | .abandon =>
    match desk.gate with
    | .free =>
      if desk.state ≠ .stopped ∧ desk.course ≠ .ending ∧ desk.taken.isEmpty then
        some (desk.close false)
      else none
    | _ => none
  | .reopen =>
    match desk.gate with
    | .closing ends =>
      if desk.taken.isEmpty then
        some { desk with gate := .free, course := if ends then .ending else .closed }
      else none
    | _ => none
  | .stop inTime =>
    if desk.course = .ending ∧ desk.taken.isEmpty then
      some { desk with state := if inTime then .stopped else .failed, course := .closed }
    else none

/-! ## The invariant -/

variable {desk next : Desk} {index : Nat} {call : PendingCall}

/-- Every entry of the table belongs to a call whose future is still there, and every call whose
    future is still there has its entry in the table, is being completed or has its answer. -/
structure Kept (desk : Desk) : Prop where
  bounded : desk.table.Bounded
  issued : ∀ call ∈ desk.calls, call.request.sequence.toNat < desk.nextRequest
  claims : ∀ (i j : Nat) (a b : PendingCall), desk.calls[i]? = some a → desk.calls[j]? = some b →
    a.stage.claims = true → b.stage.claims = true → a.request = b.request → i = j
  held : ∀ request entry, desk.table.entries.lookup request = some entry →
    ∃ call, desk.calls[desk.holder request]? = some call ∧ call.request = request ∧
      call.promise = .new ∧ call.stage.isOpen = true ∧ desk.holder request ∉ desk.taken.map Prod.fst
  waits : ∀ (index : Nat) (call : PendingCall), desk.calls[index]? = some call →
    call.stage.isOpen = true → call.promise.done = false → index ∉ desk.taken.map Prod.fst →
    (∃ entry, desk.table.entries.lookup call.request = some entry) ∧
      desk.holder call.request = index
  taken : ∀ pair ∈ desk.taken, ∃ call, desk.calls[pair.1]? = some call ∧ call.promise = .new
  takenOnce : (desk.taken.map Prod.fst).Nodup
  completed : ∀ pair ∈ desk.completed, ∃ call, desk.calls[pair.1]? = some call ∧
    call.promise.done = true
  completedOnce : (desk.completed.map Prod.fst).Nodup
  result : ∀ (index : Nat) (call : PendingCall) (answer : Answer), desk.calls[index]? = some call →
    call.promise.result = some answer → (index, answer) ∈ desk.completed
  ready : ∀ (index : Nat) (call : PendingCall), desk.calls[index]? = some call →
    call.stage.isOpen = true → call.promise.done = true →
    ∃ answer, call.promise.result = some answer
  yielded : ∀ pair ∈ desk.yielded, pair ∈ desk.completed ∧ ∃ call,
    desk.calls[pair.1]? = some call ∧ call.stage.isOver = true
  yieldedOnce : (desk.yielded.map Prod.fst).Nodup

theorem getElem?_set_iff {calls : List PendingCall} {old new found : PendingCall} {other : Nat}
    (hold : calls[index]? = some old) :
    (calls.set index new)[other]? = some found ↔
      other = index ∧ found = new ∨ other ≠ index ∧ calls[other]? = some found := by
  obtain ⟨hlt, -⟩ := List.getElem?_eq_some_iff.mp hold
  rw [List.getElem?_set]
  by_cases heq : index = other
  · subst heq
    simp [hlt, eq_comm]
  · simp [heq, Ne.symm heq]

theorem getElem?_append_iff {calls : List PendingCall} {new found : PendingCall} {other : Nat} :
    (calls ++ [new])[other]? = some found ↔
      other = calls.length ∧ found = new ∨ calls[other]? = some found := by
  rcases Nat.lt_trichotomy other calls.length with hlt | rfl | hgt
  · rw [List.getElem?_append_left hlt]
    simp [Nat.ne_of_lt hlt]
  · simp [eq_comm]
  · rw [List.getElem?_append_right (Nat.le_of_lt hgt),
      List.getElem?_eq_none (by simp; omega), List.getElem?_eq_none (Nat.le_of_lt hgt)]
    simp [Nat.ne_of_gt hgt]

theorem mem_calls_lt {calls : List PendingCall} (h : calls[index]? = some call) :
    index < calls.length :=
  (List.getElem?_eq_some_iff.mp h).1

/-- What some call is known for at each index, the call that is put in its place is known for. -/
theorem exists_set {calls : List PendingCall} (known : PendingCall → Prop)
    (hcall : calls[index]? = some call) {new : PendingCall} (hnew : known call → known new)
    {other : Nat}
    (h : ∃ found, calls[other]? = some found ∧ known found) :
    ∃ found, (calls.set index new)[other]? = some found ∧ known found := by
  obtain ⟨found, hfound, hknown⟩ := h
  by_cases heq : other = index
  · subst heq
    rw [hcall] at hfound
    cases hfound
    exact ⟨new, (getElem?_set_iff hcall).mpr (.inl ⟨rfl, rfl⟩), hnew hknown⟩
  · exact ⟨found, (getElem?_set_iff hcall).mpr (.inr ⟨heq, hfound⟩), hknown⟩

/-- The gate, the state, the course and the number of the next request are not looked at, but for
    requests that were issued. -/
theorem Kept.congr (h : Kept desk) (hle : desk.nextRequest ≤ next.nextRequest)
    (htable : next.table = desk.table) (hholder : next.holder = desk.holder)
    (hcalls : next.calls = desk.calls) (htaken : next.taken = desk.taken)
    (hcompleted : next.completed = desk.completed) (hyielded : next.yielded = desk.yielded) :
    Kept next := by
  cases next
  subst htable hholder hcalls htaken hcompleted hyielded
  exact ⟨h.bounded, fun call hmem => Nat.lt_of_lt_of_le (h.issued call hmem) hle, h.claims, h.held,
    h.waits, h.taken, h.takenOnce, h.completed, h.completedOnce, h.result, h.ready, h.yielded,
    h.yieldedOnce⟩

theorem Kept.issued_set (h : Kept desk) (hcall : desk.calls[index]? = some call)
    {new : PendingCall} (hrequest : new.request = call.request) :
    ∀ found ∈ desk.calls.set index new, found.request.sequence.toNat < desk.nextRequest := by
  intro found hmem
  rcases List.mem_or_eq_of_mem_set hmem with hmem | rfl
  · exact h.issued found hmem
  · rw [hrequest]
    exact h.issued call (List.mem_of_getElem? hcall)

/-- A call that gives its place to another one gives it no claim it does not have. -/
theorem Kept.claims_set (h : Kept desk) (hcall : desk.calls[index]? = some call)
    {new : PendingCall} (hrequest : new.request = call.request)
    (hclaims : new.stage.claims = true → call.stage.claims = true) (i j : Nat)
    (a b : PendingCall) (ha : (desk.calls.set index new)[i]? = some a)
    (hb : (desk.calls.set index new)[j]? = some b) (hclaimA : a.stage.claims = true)
    (hclaimB : b.stage.claims = true) (hsame : a.request = b.request) : i = j := by
  rcases (getElem?_set_iff hcall).mp ha with ⟨rfl, rfl⟩ | ⟨-, hold⟩
  · rcases (getElem?_set_iff hcall).mp hb with ⟨rfl, rfl⟩ | ⟨-, hold⟩
    · rfl
    · exact h.claims _ _ _ _ hcall hold (hclaims hclaimA) hclaimB (hrequest.symm.trans hsame)
  · rcases (getElem?_set_iff hcall).mp hb with ⟨rfl, rfl⟩ | ⟨-, hother⟩
    · exact h.claims _ _ _ _ hold hcall hclaimA (hclaims hclaimB) (hsame.trans hrequest)
    · exact h.claims _ _ _ _ hold hother hclaimA hclaimB hsame

/-- An entry of the request of a call that claims it is the call's own. -/
theorem Kept.own (h : Kept desk) (hcall : desk.calls[index]? = some call)
    (hclaims : call.stage.claims = true) {entry : PendingEntry}
    (hentry : desk.table.entries.lookup call.request = some entry) :
    desk.holder call.request = index := by
  obtain ⟨found, hfound, hrequest, -, hopen, -⟩ := h.held _ _ hentry
  exact h.claims _ _ _ _ hfound hcall (CallStage.claims_of_isOpen hopen) hclaims hrequest

/-- What the place of a call in the list may be given to instead. -/
structure Succeeds (call new : PendingCall) : Prop where
  request : new.request = call.request
  claims : new.stage.claims = true → call.stage.claims = true
  isOpen : new.stage.isOpen = true → call.stage.isOpen = true ∧ new.promise = call.promise
  isOver : call.stage.isOver = true → new.stage.isOver = true
  promise : new.promise = call.promise ∨ call.promise.done = true ∧ new.promise.done = true ∧
    new.promise.result = none

/-- A future goes on, and its entry stays while the future is there. -/
theorem Kept.setCall (h : Kept desk) (hcall : desk.calls[index]? = some call) {new : PendingCall}
    (hnew : Succeeds call new) {table : PendingTable} (hbounded : table.Bounded)
    (hsub : ∀ request entry, table.entries.lookup request = some entry →
      desk.table.entries.lookup request = some entry)
    (hkeep : ∀ request entry, desk.table.entries.lookup request = some entry →
      desk.holder request ≠ index ∨ new.stage.isOpen = true →
      table.entries.lookup request = some entry)
    (hgone : new.stage.isOpen = false → ∀ request entry,
      table.entries.lookup request = some entry → desk.holder request ≠ index) :
    Kept { desk.setCall index new with table := table } := by
  have hset : ∀ other found, (desk.calls.set index new)[other]? = some found ↔
      other = index ∧ found = new ∨ other ≠ index ∧ desk.calls[other]? = some found :=
    fun _ _ => getElem?_set_iff hcall
  have hpromise : call.promise = .new → new.promise = .new := by
    intro heq
    rcases hnew.promise with hsame | ⟨hdone, -⟩
    · exact hsame.trans heq
    · rw [heq] at hdone
      cases hdone
  refine ⟨hbounded, h.issued_set hcall hnew.request, h.claims_set hcall hnew.request hnew.claims,
    ?held, ?waits, ?taken, h.takenOnce, ?completed, h.completedOnce, ?result, ?ready, ?yielded,
    h.yieldedOnce⟩
  case held =>
    intro request entry hentry
    obtain ⟨found, hfound, hrequest, hfresh, hfoundOpen, htaken⟩ := h.held _ _ (hsub _ _ hentry)
    by_cases heq : desk.holder request = index
    · have hstage : new.stage.isOpen = true := by
        by_contra hshut
        exact hgone (Bool.eq_false_iff.mpr hshut) _ _ hentry heq
      rw [heq, hcall] at hfound
      cases hfound
      exact ⟨_, (hset _ _).mpr (.inl ⟨heq, rfl⟩), hnew.request.trans hrequest, hpromise hfresh,
        hstage, htaken⟩
    · exact ⟨found, (hset _ _).mpr (.inr ⟨heq, hfound⟩), hrequest, hfresh, hfoundOpen, htaken⟩
  case waits =>
    intro other found hfound hfoundOpen hundone htaken
    rcases (hset other found).mp hfound with ⟨rfl, rfl⟩ | ⟨hne, hfound⟩
    · obtain ⟨hopen, hsame⟩ := hnew.isOpen hfoundOpen
      obtain ⟨⟨entry, hentry⟩, hholder⟩ := h.waits _ _ hcall hopen (hsame ▸ hundone) htaken
      rw [hnew.request]
      exact ⟨⟨entry, hkeep _ _ hentry (.inr hfoundOpen)⟩, hholder⟩
    · obtain ⟨⟨entry, hentry⟩, hholder⟩ := h.waits _ _ hfound hfoundOpen hundone htaken
      exact ⟨⟨entry, hkeep _ _ hentry (.inl (hholder ▸ hne))⟩, hholder⟩
  case taken =>
    exact fun pair hmem => exists_set (·.promise = .new) hcall hpromise (h.taken pair hmem)
  case completed =>
    refine fun pair hmem =>
      exists_set (·.promise.done = true) hcall (fun hdone => ?_) (h.completed pair hmem)
    rcases hnew.promise with hsame | ⟨-, hnewDone, -⟩
    · rw [hsame, hdone]
    · exact hnewDone
  case result =>
    intro other found answer hfound hresult
    rcases (hset other found).mp hfound with ⟨rfl, rfl⟩ | ⟨-, hfound⟩
    · rcases hnew.promise with hsame | ⟨-, -, hnone⟩
      · exact h.result _ _ _ hcall (hsame ▸ hresult)
      · rw [hnone] at hresult
        cases hresult
    · exact h.result _ _ _ hfound hresult
  case ready =>
    intro other found hfound hfoundOpen hdone
    rcases (hset other found).mp hfound with ⟨rfl, rfl⟩ | ⟨-, hfound⟩
    · obtain ⟨hopen, hsame⟩ := hnew.isOpen hfoundOpen
      rw [hsame] at hdone ⊢
      exact h.ready _ _ hcall hopen hdone
    · exact h.ready _ _ hfound hfoundOpen hdone
  case yielded =>
    intro pair hmem
    obtain ⟨hcompleted, hover⟩ := h.yielded pair hmem
    exact ⟨hcompleted, exists_set (·.stage.isOver = true) hcall hnew.isOver hover⟩

/-- The table stays as it is; a future that goes away has no entry. -/
theorem Kept.setCall_same (h : Kept desk) (hcall : desk.calls[index]? = some call)
    (new : PendingCall) (hnew : Succeeds call new)
    (hgone : new.stage.isOpen = false →
      call.stage.isOpen = false ∨ call.promise.done = true) :
    Kept (desk.setCall index new) := by
  refine h.setCall hcall hnew h.bounded (fun _ _ hentry => hentry) (fun _ _ hentry _ => hentry) ?_
  intro hshut request entry hentry heq
  obtain ⟨found, hfound, -, hfresh, hopen, -⟩ := h.held _ _ hentry
  rw [heq, hcall] at hfound
  cases hfound
  rcases hgone hshut with hclosed | hdone
  · rw [hopen] at hclosed
    cases hclosed
  · rw [hfresh] at hdone
    cases hdone

/-- A future goes away with its entry. -/
theorem Kept.withdraw (h : Kept desk) (hcall : desk.calls[index]? = some call)
    {stage : CallStage} (hclaims : call.stage.claims = true) (hover : call.stage.isOver = false)
    (hstage : stage.claims = false) : Kept (desk.withdraw index call stage) := by
  have hshut : stage.isOpen = false := by
    cases stage <;> first | rfl | cases hstage
  have hnew : Succeeds call { call with stage := stage } :=
    { request := rfl
      claims := fun _ => hclaims
      isOpen := fun hopen => by
        rw [hshut] at hopen
        cases hopen
      isOver := fun hisOver => by
        rw [hover] at hisOver
        cases hisOver
      promise := .inl rfl }
  refine h.setCall hcall hnew (h.bounded.remove _)
    (fun _ _ hentry => (PendingTable.Shrinks.remove _).lookup hentry) ?_ ?_
  · intro request entry hentry hor
    have hne : request ≠ call.request := by
      rintro rfl
      rcases hor with hholder | hopen
      · exact hholder (h.own hcall hclaims hentry)
      · rw [hshut] at hopen
        cases hopen
    rw [PendingTable.lookup_remove_ne hne]
    exact hentry
  · intro _ request entry hentry heq
    have hold := (PendingTable.Shrinks.remove call.request).lookup hentry
    obtain ⟨found, hfound, hrequest, -⟩ := h.held _ _ hold
    rw [heq, hcall] at hfound
    cases hfound
    rw [← hrequest, PendingTable.lookup_remove] at hentry
    cases hentry

/-- What a future comes to is the answer its promise was completed with. -/
theorem Kept.poll (h : Kept desk) (hcall : desk.calls[index]? = some call)
    (hstage : call.stage = .waiting) : Kept (desk.poll index call) := by
  unfold Desk.poll Promise.poll
  cases hresult : call.promise.result with
  | none => exact h
  | some answer =>
    have hcompleted := h.result _ _ _ hcall hresult
    obtain ⟨found, hfound, hdone⟩ := h.completed _ hcompleted
    rw [hcall] at hfound
    cases hfound
    have hset := h.setCall_same hcall
      ⟨call.request, { call.promise with result := none }, .finished⟩
      { request := rfl
        claims := fun _ => by rw [hstage]; rfl
        isOpen := fun hopen => by cases hopen
        isOver := fun _ => rfl
        promise := .inr ⟨hdone, hdone, rfl⟩ }
      (fun _ => .inr hdone)
    have hfirst : index ∉ desk.yielded.map Prod.fst := by
      intro hmem
      obtain ⟨pair, hpair, rfl⟩ := List.mem_map.mp hmem
      obtain ⟨-, found, hfound, hover⟩ := h.yielded pair hpair
      rw [hcall] at hfound
      cases hfound
      rw [hstage] at hover
      cases hover
    refine { hset with yielded := ?_, yieldedOnce := ?_ }
    · intro pair hmem
      rcases List.mem_append.mp hmem with hmem | hmem
      · exact hset.yielded pair hmem
      · rw [List.mem_singleton.mp hmem]
        exact ⟨hcompleted, _, (getElem?_set_iff hcall).mpr (.inl ⟨rfl, rfl⟩), rfl⟩
    · rw [List.map_append]
      exact h.yieldedOnce.append (List.nodup_singleton index)
        (List.disjoint_singleton.mpr hfirst)

/-- The entries that are taken out are those of calls that nothing else completes. -/
theorem Kept.take (h : Kept desk) (hempty : desk.taken = []) {requests : List RequestId}
    {table : PendingTable} {answer : RequestId → Answer} (hnodup : requests.Nodup)
    (hrequests : ∀ request ∈ requests, ∃ entry, desk.table.entries.lookup request = some entry)
    (hbounded : table.Bounded)
    (hlookup : ∀ request entry, table.entries.lookup request = some entry ↔
      desk.table.entries.lookup request = some entry ∧ request ∉ requests) :
    Kept (desk.take requests table answer) := by
  have hfst : (requests.map fun request => (desk.holder request, answer request)).map Prod.fst =
      requests.map desk.holder := by
    rw [List.map_map]
    rfl
  have hinj : ∀ first entry, desk.table.entries.lookup first = some entry → ∀ second other,
      desk.table.entries.lookup second = some other →
      desk.holder first = desk.holder second → first = second := by
    intro first entry hfirst second other hsecond heq
    obtain ⟨a, ha, hrequestA, -⟩ := h.held _ _ hfirst
    obtain ⟨b, hb, hrequestB, -⟩ := h.held _ _ hsecond
    rw [heq, hb] at ha
    cases ha
    exact hrequestA.symm.trans hrequestB
  refine ⟨hbounded, h.issued, h.claims, ?held, ?waits, ?taken, ?takenOnce, h.completed,
    h.completedOnce, h.result, h.ready, h.yielded, h.yieldedOnce⟩
  case held =>
    intro request entry hentry
    obtain ⟨hold, hkept⟩ := (hlookup _ _).mp hentry
    obtain ⟨found, hfound, hrequest, hfresh, hopen, -⟩ := h.held _ _ hold
    refine ⟨found, hfound, hrequest, hfresh, hopen, ?_⟩
    intro hmem
    obtain ⟨other, hother, heq⟩ := List.mem_map.mp (hfst ▸ hmem)
    obtain ⟨otherEntry, hotherEntry⟩ := hrequests other hother
    exact hkept (hinj _ _ hotherEntry _ _ hold heq ▸ hother)
  case waits =>
    intro other found hfound hopen hundone htaken
    obtain ⟨⟨entry, hentry⟩, hholder⟩ :=
      h.waits _ _ hfound hopen hundone (by rw [hempty]; exact List.not_mem_nil)
    refine ⟨⟨entry, (hlookup _ _).mpr ⟨hentry, fun hmem => htaken ?_⟩⟩, hholder⟩
    exact hfst.symm ▸ List.mem_map.mpr ⟨_, hmem, hholder⟩
  case taken =>
    intro pair hmem
    obtain ⟨request, hrequest, rfl⟩ := List.mem_map.mp hmem
    obtain ⟨entry, hentry⟩ := hrequests request hrequest
    obtain ⟨found, hfound, -, hfresh, -⟩ := h.held _ _ hentry
    exact ⟨found, hfound, hfresh⟩
  case takenOnce =>
    refine hfst.symm ▸ hnodup.map_on fun first hfirst second hsecond heq => ?_
    obtain ⟨firstEntry, hfirstEntry⟩ := hrequests first hfirst
    obtain ⟨secondEntry, hsecondEntry⟩ := hrequests second hsecond
    exact hinj _ _ hfirstEntry _ _ hsecondEntry heq

theorem Kept.drain (h : Kept desk) (hempty : desk.taken = []) (error : RuntimeError) :
    Kept (desk.drain error) := by
  refine h.take hempty desk.table.entries.keys_nodup ?_ (PendingTable.bounded_drain _) ?_
  · intro request hmem
    exact Option.isSome_iff_exists.mp (AList.lookup_isSome.mpr (AList.mem_keys.mpr hmem))
  · intro request entry
    refine ⟨fun hentry => (by cases hentry), fun ⟨hentry, hkept⟩ => absurd ?_ hkept⟩
    exact AList.mem_keys.mp (AList.lookup_isSome.mp (by rw [hentry]; rfl))

theorem Kept.expire (h : Kept desk) (hempty : desk.taken = []) (now : Nat) :
    Kept (desk.expire now) := by
  have hmem : ∀ request, request ∈ desk.table.entries.keys.filter (fun request =>
      (desk.table.entries.lookup request).any fun entry => decide (entry.expiresAt ≤ now)) ↔
      ∃ entry, desk.table.entries.lookup request = some entry ∧ entry.expiresAt ≤ now := by
    intro request
    rw [List.mem_filter]
    constructor
    · rintro ⟨-, hany⟩
      cases hlook : desk.table.entries.lookup request with
      | none => simp [hlook] at hany
      | some entry => exact ⟨entry, rfl, by simpa [hlook] using hany⟩
    · rintro ⟨entry, hlook, hlate⟩
      refine ⟨AList.mem_keys.mp (AList.lookup_isSome.mp (by rw [hlook]; rfl)), ?_⟩
      simpa [hlook] using hlate
  refine h.take hempty (desk.table.entries.keys_nodup.filter _) ?_ (h.bounded.expired now) ?_
  · intro request hrequest
    obtain ⟨entry, hentry, -⟩ := (hmem request).mp hrequest
    exact ⟨entry, hentry⟩
  · intro request entry
    rw [PendingTable.lookup_expired, Option.filter_eq_some_iff, hmem]
    refine and_congr_right fun hentry => ?_
    simp [hentry]

theorem Kept.takeOne (h : Kept desk) (hempty : desk.taken = []) {request : RequestId}
    {entry : PendingEntry} (hentry : desk.table.entries.lookup request = some entry)
    (answer : Answer) :
    Kept (desk.take [request] (desk.table.remove request).2 fun _ => answer) := by
  refine h.take hempty (List.nodup_singleton request) ?_ (h.bounded.remove request) ?_
  · intro other hmem
    exact ⟨entry, List.mem_singleton.mp hmem ▸ hentry⟩
  · intro other found
    rw [List.mem_singleton]
    by_cases heq : other = request
    · subst heq
      simp
    · simp [PendingTable.lookup_remove_ne heq, heq]

theorem Kept.respond (h : Kept desk) (hempty : desk.taken = []) (request : RequestId)
    (source : LocalityId) (action : ActionId) (answer : Answer) :
    Kept (desk.respond request source action answer) := by
  unfold Desk.respond
  split
  · next entry table htake =>
    obtain ⟨hnone, -⟩ | ⟨found, -, hentry, -, -, rfl⟩ := PendingTable.takeChecked_cases htake
    · cases hnone
    · exact h.takeOne hempty hentry answer
  · exact h

theorem Kept.refuse (h : Kept desk) (hempty : desk.taken = []) (request : RequestId)
    (error : RuntimeError) : Kept (desk.refuse request error) := by
  unfold Desk.refuse
  split
  · exact h
  · next entry table hremove =>
    obtain ⟨hentry, rfl⟩ := Prod.mk.inj hremove
    exact h.takeOne hempty hentry (.error error)

/-- A new call has a request that no other call claims. -/
theorem Kept.insert (h : Kept desk) {request : RequestId} (entry : PendingEntry)
    (hissued : request.sequence.toNat < desk.nextRequest)
    (hfree : ∀ call ∈ desk.calls, call.request = request → call.stage.claims = false) :
    Kept (desk.insert request entry) := by
  unfold Desk.insert
  cases hinsert : desk.table.insert request entry with
  | error error => exact h.congr (Nat.le_refl _) rfl rfl rfl rfl rfl rfl
  | ok table =>
    dsimp only
    have hnot : ∀ {found : PendingCall} {other : Nat}, desk.calls[other]? = some found →
        found.stage.claims = true → found.request ≠ request := by
      intro found other hfound hclaims heq
      rw [hfree found (List.mem_of_getElem? hfound) heq] at hclaims
      cases hclaims
    have hold : ∀ {other : Nat} {found : PendingCall}, desk.calls[other]? = some found →
        (desk.calls ++ [⟨request, .new, .spawning⟩])[other]? = some found :=
      fun hfound => getElem?_append_iff.mpr (.inr hfound)
    refine ⟨PendingTable.Bounded.insert hinsert, ?issued, ?claims, ?held, ?waits, ?taken,
      h.takenOnce, ?completed, h.completedOnce, ?result, ?ready, ?yielded, h.yieldedOnce⟩
    case issued =>
      intro found hmem
      rcases List.mem_append.mp hmem with hmem | hmem
      · exact h.issued found hmem
      · rw [List.mem_singleton.mp hmem]
        exact hissued
    case claims =>
      intro i j a b ha hb hclaimA hclaimB hrequest
      rcases getElem?_append_iff.mp ha with ⟨rfl, rfl⟩ | hfirst
      · rcases getElem?_append_iff.mp hb with ⟨rfl, rfl⟩ | hsecond
        · rfl
        · exact absurd hrequest.symm (hnot hsecond hclaimB)
      · rcases getElem?_append_iff.mp hb with ⟨rfl, rfl⟩ | hsecond
        · exact absurd hrequest (hnot hfirst hclaimA)
        · exact h.claims _ _ _ _ hfirst hsecond hclaimA hclaimB hrequest
    case held =>
      intro other found hfound
      by_cases heq : other = request
      · subst heq
        refine ⟨_, getElem?_append_iff.mpr (.inl ⟨Function.update_self .., rfl⟩), rfl, rfl, rfl, ?_⟩
        intro hmem
        obtain ⟨pair, hpair, hlength⟩ := List.mem_map.mp hmem
        obtain ⟨old, hcall, -⟩ := h.taken pair hpair
        have hlast : pair.1 = desk.calls.length := hlength.trans (Function.update_self ..)
        exact absurd (mem_calls_lt hcall) (Nat.not_lt_of_le hlast.ge)
      · rw [PendingTable.lookup_insert_ne hinsert heq] at hfound
        simp only [Function.update_of_ne heq]
        obtain ⟨old, hcall, hrest⟩ := h.held _ _ hfound
        exact ⟨old, hold hcall, hrest⟩
    case waits =>
      intro other found hfound hopen hundone htaken
      rcases getElem?_append_iff.mp hfound with ⟨rfl, rfl⟩ | hfirst
      · exact ⟨⟨entry, PendingTable.lookup_insert hinsert⟩, Function.update_self ..⟩
      · have hne := hnot hfirst (CallStage.claims_of_isOpen hopen)
        simp only [Function.update_of_ne hne, PendingTable.lookup_insert_ne hinsert hne]
        exact h.waits _ _ hfirst hopen hundone htaken
    case taken =>
      intro pair hmem
      obtain ⟨found, hfound, hfresh⟩ := h.taken pair hmem
      exact ⟨found, hold hfound, hfresh⟩
    case completed =>
      intro pair hmem
      obtain ⟨found, hfound, hdone⟩ := h.completed pair hmem
      exact ⟨found, hold hfound, hdone⟩
    case result =>
      intro other found answer hfound hresult
      rcases getElem?_append_iff.mp hfound with ⟨rfl, rfl⟩ | hfirst
      · cases hresult
      · exact h.result _ _ _ hfirst hresult
    case ready =>
      intro other found hfound hopen hdone
      rcases getElem?_append_iff.mp hfound with ⟨rfl, rfl⟩ | hfirst
      · cases hdone
      · exact h.ready _ _ hfirst hopen hdone
    case yielded =>
      intro pair hmem
      obtain ⟨hcompleted, found, hfound, hover⟩ := h.yielded pair hmem
      exact ⟨hcompleted, found, hold hfound, hover⟩

theorem complete_calls (hcall : desk.calls[index]? = some call) (answer : Answer)
    (rest : List (Nat × Answer)) :
    (desk.complete index answer rest).calls =
      desk.calls.set index { call with promise := call.promise.complete answer } := by
  refine List.ext_getElem? fun other => ?_
  rw [Desk.complete, List.getElem?_modify, List.getElem?_set]
  by_cases heq : index = other
  · subst heq
    rw [if_pos rfl, if_pos (mem_calls_lt hcall), hcall]
    simp
  · simp [heq]

/-- The promise of an entry that was taken has not been completed before. -/
theorem Kept.complete (h : Kept desk) {answer : Answer} {rest : List (Nat × Answer)}
    (htaken : desk.taken.Perm ((index, answer) :: rest)) :
    Kept (desk.complete index answer rest) := by
  obtain ⟨call, hcall, hfresh⟩ := h.taken (index, answer)
    (htaken.mem_iff.mpr List.mem_cons_self)
  have hcalls := complete_calls hcall answer rest
  have hanswered : call.promise.complete answer = ⟨some answer, true⟩ := by
    rw [hfresh]
    rfl
  rw [hanswered] at hcalls
  have hset : ∀ other found, (desk.calls.set index
        { call with promise := ⟨some answer, true⟩ })[other]? = some found ↔
      other = index ∧ found = { call with promise := ⟨some answer, true⟩ } ∨
        other ≠ index ∧ desk.calls[other]? = some found :=
    fun _ _ => getElem?_set_iff hcall
  have hfirst := htaken.map Prod.fst
  have honce := hfirst.nodup_iff.mp h.takenOnce
  rw [List.map_cons, List.nodup_cons] at honce
  have hnot : index ∉ desk.completed.map Prod.fst := by
    intro hmem
    obtain ⟨pair, hpair, rfl⟩ := List.mem_map.mp hmem
    obtain ⟨found, hfound, hdone⟩ := h.completed pair hpair
    rw [hcall] at hfound
    cases hfound
    rw [hfresh] at hdone
    cases hdone
  refine ⟨h.bounded, ?issued, ?claims, ?held, ?waits, ?taken, honce.2, ?completed,
    ?completedOnce, ?result, ?ready, ?yielded, h.yieldedOnce⟩
  case issued =>
    rw [hcalls]
    exact h.issued_set hcall rfl
  case claims =>
    rw [hcalls]
    exact h.claims_set hcall rfl id
  case held =>
    rw [hcalls]
    intro request entry hentry
    obtain ⟨found, hfound, hrequest, hnew, hopen, hnotTaken⟩ := h.held _ _ hentry
    rw [hfirst.mem_iff, List.map_cons, List.mem_cons, not_or] at hnotTaken
    exact ⟨found, (hset _ _).mpr (.inr ⟨hnotTaken.1, hfound⟩), hrequest, hnew, hopen, hnotTaken.2⟩
  case waits =>
    rw [hcalls]
    intro other found hfound hopen hundone hrest
    rcases (hset other found).mp hfound with ⟨rfl, rfl⟩ | ⟨hne, hold⟩
    · cases hundone
    · refine h.waits _ _ hold hopen hundone ?_
      rw [hfirst.mem_iff, List.map_cons, List.mem_cons, not_or]
      exact ⟨hne, hrest⟩
  case taken =>
    rw [hcalls]
    intro pair hmem
    obtain ⟨found, hfound, hnew⟩ := h.taken pair
      (htaken.mem_iff.mpr (List.mem_cons_of_mem _ hmem))
    refine ⟨found, (hset _ _).mpr (.inr ⟨?_, hfound⟩), hnew⟩
    intro heq
    exact honce.1 (List.mem_map.mpr ⟨pair, hmem, heq⟩)
  case completed =>
    rw [hcalls]
    intro pair hmem
    rcases List.mem_append.mp hmem with hmem | hmem
    · exact exists_set (·.promise.done = true) hcall (fun _ => rfl) (h.completed pair hmem)
    · rw [List.mem_singleton.mp hmem]
      exact ⟨_, (hset _ _).mpr (.inl ⟨rfl, rfl⟩), rfl⟩
  case completedOnce =>
    rw [Desk.complete, List.map_append]
    exact h.completedOnce.append (List.nodup_singleton index) (List.disjoint_singleton.mpr hnot)
  case result =>
    rw [hcalls]
    intro other found result hfound hresult
    rcases (hset other found).mp hfound with ⟨rfl, rfl⟩ | ⟨-, hold⟩
    · cases hresult
      exact List.mem_append_right _ (List.mem_singleton_self _)
    · exact List.mem_append_left _ (h.result _ _ _ hold hresult)
  case ready =>
    rw [hcalls]
    intro other found hfound hopen hdone
    rcases (hset other found).mp hfound with ⟨rfl, rfl⟩ | ⟨-, hold⟩
    · exact ⟨answer, rfl⟩
    · exact h.ready _ _ hold hopen hdone
  case yielded =>
    rw [hcalls]
    intro pair hmem
    obtain ⟨hcompleted, hover⟩ := h.yielded pair hmem
    refine ⟨List.mem_append_left _ hcompleted,
      exists_set (·.stage.isOver = true) hcall ?_ hover⟩
    exact id

end Desk

end Hataori.Runtime
