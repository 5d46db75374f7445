import Hataori.Lib.Maps
import Hataori.Runtime.Error

/-!
# Requests a locality has seen

`RuntimeMessage` of `hataori-runtime/src/wire.rs` and the `DedupTable` of
`hataori-runtime/src/dedup.rs`: a running request has an entry, a completed one keeps its
response for a while, and a cancellation that comes first leaves a mark. Cancellation
tokens are numbers, and the caller sets the flags.
-/

namespace Hataori.Runtime

open Lib.Maps

/-- `RuntimeMessageKind`. -/
inductive RuntimeMessageKind where
  | request
  | success
  | failure
  | cancel
  | cancelled
  | duplicateResultUnavailable
  | moved
  deriving DecidableEq, Repr

/-- `RuntimeMessage`. -/
structure RuntimeMessage where
  kind : RuntimeMessageKind
  request : RequestId
  action : ActionId
  domain : DomainId
  deadlineMs : Nat
  payload : Segments
  deriving DecidableEq, Repr

/-- The bytes of a payload, if their number does not overflow. -/
def payloadBytes (payload : Segments) : Option Nat :=
  let total := (payload.map List.length).sum
  if total < u64Bound then some total else none

/-- `DedupDisposition`. -/
inductive DedupDisposition where
  | new (cancelled : Nat)
  | running
  | replay (message : RuntimeMessage)
  | unavailable (message : RuntimeMessage)
  | cancelled (message : RuntimeMessage)
  deriving DecidableEq, Repr

/-- `DedupState`. -/
inductive DedupState where
  | running (action : ActionId) (domain : DomainId) (cancelled : Nat)
  | completed (action : ActionId) (domain : DomainId)
      (response : Option (RuntimeMessageKind × Segments)) (retainedBytes expiresAt : Nat)
  | cancelled (action : ActionId) (domain : DomainId) (expiresAt : Nat)
  deriving DecidableEq, Repr

namespace DedupState

/-- The action and the domain of an entry. -/
def target : DedupState → ActionId × DomainId
  | .running action domain _ => (action, domain)
  | .completed action domain _ _ _ => (action, domain)
  | .cancelled action domain _ => (action, domain)

/-- Whether `expire` removes the entry. -/
def isExpired (now : Nat) : DedupState → Bool
  | .running _ _ _ => false
  | .completed _ _ _ _ expiresAt => decide (expiresAt ≤ now)
  | .cancelled _ _ expiresAt => decide (expiresAt ≤ now)

/-- The bytes an entry retains. -/
def retained : DedupState → Nat
  | .completed _ _ _ retainedBytes _ => retainedBytes
  | _ => 0

/-- The request was answered with a redirect. -/
def isMoved : DedupState → Bool
  | .completed _ _ (some (.moved, _)) _ _ => true
  | _ => false

/-- What `begin` answers to a request that has this entry. -/
def disposition (request : RequestId) : DedupState → DedupDisposition
  | .running _ _ _ => .running
  | .completed _ _ (some (.moved, _)) _ _ => .running
  | .completed action domain (some (kind, payload)) _ _ =>
    .replay ⟨kind, request, action, domain, 0, payload⟩
  | .completed action domain none _ _ =>
    .unavailable ⟨.duplicateResultUnavailable, request, action, domain, 0, []⟩
  | .cancelled action domain _ => .cancelled ⟨.cancelled, request, action, domain, 0, []⟩

end DedupState

/-- `DedupTable`. -/
structure DedupTable where
  entries : Map RequestId DedupState
  maxEntries : Nat
  maxBytes : Nat
  retainedBytes : Nat
  ttl : Nat

namespace DedupTable

/-- `DedupTable::len`. -/
def len (table : DedupTable) : Nat := table.entries.entries.length

/-- `DedupTable::expire`. -/
def expire (table : DedupTable) (now : Nat) : DedupTable :=
  let gone := (values table.entries).filter (DedupState.isExpired now)
  { table with
    entries := retain (fun _ state => !state.isExpired now) table.entries
    retainedBytes := table.retainedBytes - (gone.map DedupState.retained).sum }

/-- `DedupTable::begin`; a new request gets the given token. -/
def begin (table : DedupTable) (request : RequestId) (action : ActionId) (domain : DomainId)
    (now token : Nat) : Except RuntimeError DedupDisposition × DedupTable :=
  let table := table.expire now
  match table.entries.lookup request with
  | some state =>
    if state.target ≠ (action, domain) then
      (.error (.protocol "duplicate request changed action or domain"), table)
    else (.ok (state.disposition request), table)
  | none =>
    if table.maxEntries ≤ table.len then
      (.error (.resourceExhausted .dedupEntries table.maxEntries), table)
    else
      (.ok (.new token),
        { table with entries := table.entries.insert request (.running action domain token) })

/-- `DedupTable::release_redirect`. -/
def releaseRedirect (table : DedupTable) (request : RequestId) (action : ActionId)
    (domain : DomainId) : Except RuntimeError Unit × DedupTable :=
  match table.entries.lookup request with
  | none => (.ok (), table)
  | some state =>
    if state.isMoved ∧ state.target = (action, domain) then
      (.ok (), { table with entries := table.entries.erase request })
    else match state with
      | .running _ _ _ => (.ok (), table)
      | .completed _ _ (some (.moved, _)) _ _ => (.ok (), table)
      | _ => (.error (.protocol "redirect changed request action or domain"), table)

/-- `DedupTable::cancel`, with the token whose flag it sets. -/
def cancel (table : DedupTable) (request : RequestId) (action : ActionId) (domain : DomainId)
    (now : Nat) : Except RuntimeError (Option Nat) × DedupTable :=
  let table := table.expire now
  match table.entries.lookup request with
  | some state =>
    if state.target ≠ (action, domain) then
      (.error (.protocol "cancellation changed request action or domain"), table)
    else match state with
      | .running _ _ token => (.ok (some token), table)
      | _ => (.ok none, table)
  | none =>
    if table.len < table.maxEntries then
      (.ok none,
        { table with
          entries := table.entries.insert request (.cancelled action domain (now + table.ttl)) })
    else (.ok none, table)

/-- The insertion at the end of `complete`, once the bytes of the payload are counted. -/
def retainResponse (table : DedupTable) (message : RuntimeMessage) (bytes now : Nat) :
    DedupTable :=
  if table.retainedBytes + bytes ≤ table.maxBytes then
    { table with
      entries := table.entries.insert message.request (.completed message.action message.domain
        (some (message.kind, message.payload)) bytes (now + table.ttl))
      retainedBytes := table.retainedBytes + bytes }
  else
    { table with
      entries := table.entries.insert message.request
        (.completed message.action message.domain none 0 (now + table.ttl)) }

/-- `DedupTable::complete`. -/
def complete (table : DedupTable) (message : RuntimeMessage) (now : Nat) :
    Except RuntimeError Unit × DedupTable :=
  match table.entries.lookup message.request with
  | none => (.error (.protocol "action completed without a dedup entry"), table)
  | some (.completed _ _ _ _ _) => (.error (.protocol "action completed more than once"), table)
  | some state =>
    if state.target ≠ (message.action, message.domain) then
      (.error (.protocol "action completion changed request metadata"), table)
    else match payloadBytes message.payload with
      | none => (.error (.resourceExhausted .dedupBytes table.maxBytes), table)
      | some bytes => (.ok (), table.retainResponse message bytes now)

/-- `DedupTable::clear`. -/
def clear (table : DedupTable) : DedupTable := { table with entries := ∅, retainedBytes := 0 }

/-! ## What the operations keep -/

/-- The request has an entry that runs, for this action in this domain. -/
def Runs (table : DedupTable) (request : RequestId) (action : ActionId) (domain : DomainId) :
    Prop :=
  ∃ token, table.entries.lookup request = some (.running action domain token)

/-- The table is within its limit. -/
def Bounded (table : DedupTable) : Prop := table.len ≤ table.maxEntries

variable {table : DedupTable} {request : RequestId} {action : ActionId} {domain : DomainId}
  {now token : Nat}

theorem length_insert_none {entries : Map RequestId DedupState} {state : DedupState}
    (h : entries.lookup request = none) :
    (entries.insert request state).entries.length = entries.entries.length + 1 := by
  rw [AList.insert_of_notMem (AList.lookup_eq_none.mp h)]
  rfl

theorem length_insert_some {entries : Map RequestId DedupState} {old state : DedupState}
    (h : entries.lookup request = some old) :
    (entries.insert request state).entries.length = entries.entries.length := by
  rw [(entries_perm_erase h).length_eq]
  rfl

theorem expire_len (table : DedupTable) (now : Nat) : (table.expire now).len ≤ table.len :=
  List.length_filter_le _ _

theorem Bounded.expire (h : table.Bounded) (now : Nat) : (table.expire now).Bounded :=
  (expire_len table now).trans h

theorem expire_runs (table : DedupTable) (now : Nat) (request : RequestId) (action : ActionId)
    (domain : DomainId) :
    (table.expire now).Runs request action domain ↔ table.Runs request action domain := by
  have hlookup : (table.expire now).entries.lookup request =
      (table.entries.lookup request).filter fun state => !state.isExpired now :=
    lookup_retain _ _ _
  constructor
  · rintro ⟨token, hrunning⟩
    rw [hlookup, Option.filter_eq_some_iff] at hrunning
    exact ⟨token, hrunning.1⟩
  · rintro ⟨token, hrunning⟩
    refine ⟨token, ?_⟩
    rw [hlookup, hrunning]
    rfl

variable {other : RequestId} {otherAction : ActionId} {otherDomain : DomainId}

/-- A request begins only without an entry, and then it runs; every entry that runs stays. -/
theorem begin_runs (table : DedupTable) (request : RequestId) (action : ActionId)
    (domain : DomainId) (now token : Nat) :
    (∀ other otherAction otherDomain, table.Runs other otherAction otherDomain →
      (table.begin request action domain now token).2.Runs other otherAction otherDomain) ∧
    ∀ found, (table.begin request action domain now token).1 = .ok (.new found) →
      (∀ otherAction otherDomain, ¬table.Runs request otherAction otherDomain) ∧
        (table.begin request action domain now token).2.Runs request action domain := by
  have hkeeps := fun other otherAction otherDomain =>
    (expire_runs table now other otherAction otherDomain).mpr
  unfold DedupTable.begin
  dsimp only
  cases hlook : (table.expire now).entries.lookup request with
  | some state =>
    dsimp only
    split
    · exact ⟨hkeeps, fun _ h => by cases h⟩
    · refine ⟨hkeeps, fun found h => ?_⟩
      have hnew : state.disposition request = .new found := Except.ok.inj h
      unfold DedupState.disposition at hnew
      split at hnew <;> cases hnew
  | none =>
    dsimp only
    split
    · exact ⟨hkeeps, fun _ h => by cases h⟩
    · refine ⟨fun other otherAction otherDomain hother => ?_,
        fun _ _ => ⟨fun otherAction otherDomain hruns => ?_, ?_⟩⟩
      · obtain ⟨kept, hkept⟩ := hkeeps other otherAction otherDomain hother
        have hne : other ≠ request := by
          rintro rfl
          rw [hlook] at hkept
          cases hkept
        exact ⟨kept, (AList.lookup_insert_ne hne).trans hkept⟩
      · obtain ⟨kept, hkept⟩ := hkeeps request otherAction otherDomain hruns
        rw [hlook] at hkept
        cases hkept
      · exact ⟨token, AList.lookup_insert _⟩

theorem Bounded.begin (h : table.Bounded) (request : RequestId) (action : ActionId)
    (domain : DomainId) (now token : Nat) :
    (table.begin request action domain now token).2.Bounded := by
  have hexpired := h.expire now
  unfold DedupTable.begin
  dsimp only
  cases hlook : (table.expire now).entries.lookup request with
  | some state =>
    dsimp only
    split <;> exact hexpired
  | none =>
    dsimp only
    split
    · exact hexpired
    · next hroom =>
      rw [Bounded, DedupTable.len, length_insert_none hlook]
      unfold DedupTable.len at hroom
      dsimp only
      omega

@[simp] theorem begin_maxEntries (table : DedupTable) (request : RequestId) (action : ActionId)
    (domain : DomainId) (now token : Nat) :
    (table.begin request action domain now token).2.maxEntries = table.maxEntries := by
  unfold DedupTable.begin
  dsimp only
  repeat' split
  all_goals rfl

/-- A redirect that is released did not run. -/
theorem releaseRedirect_runs (table : DedupTable) (request : RequestId) (action : ActionId)
    (domain : DomainId) (h : table.Runs other otherAction otherDomain) :
    (table.releaseRedirect request action domain).2.Runs other otherAction otherDomain := by
  unfold releaseRedirect
  cases hlook : table.entries.lookup request with
  | none => exact h
  | some state =>
    dsimp only
    split
    · next hmoved =>
      obtain ⟨found, hfound⟩ := h
      have hne : other ≠ request := by
        rintro rfl
        rw [hlook] at hfound
        cases hfound
        simp [DedupState.isMoved] at hmoved
      exact ⟨found, (AList.lookup_erase_ne hne).trans hfound⟩
    · split <;> exact h

theorem Bounded.releaseRedirect (h : table.Bounded) (request : RequestId) (action : ActionId)
    (domain : DomainId) : (table.releaseRedirect request action domain).2.Bounded := by
  unfold DedupTable.releaseRedirect
  cases table.entries.lookup request with
  | none => exact h
  | some state =>
    dsimp only
    split
    · exact ((List.kerase_sublist request table.entries.entries).length_le).trans h
    · split <;> exact h

@[simp] theorem releaseRedirect_maxEntries (table : DedupTable) (request : RequestId)
    (action : ActionId) (domain : DomainId) :
    (table.releaseRedirect request action domain).2.maxEntries = table.maxEntries := by
  unfold releaseRedirect
  repeat' split
  all_goals rfl

theorem cancel_runs (table : DedupTable) (request : RequestId) (action : ActionId)
    (domain : DomainId) (now : Nat) (h : table.Runs other otherAction otherDomain) :
    (table.cancel request action domain now).2.Runs other otherAction otherDomain := by
  have hkept := (expire_runs table now other otherAction otherDomain).mpr h
  unfold cancel
  dsimp only
  cases hlook : (table.expire now).entries.lookup request with
  | some state =>
    dsimp only
    repeat' split
    all_goals exact hkept
  | none =>
    dsimp only
    split
    · obtain ⟨found, hfound⟩ := hkept
      have hne : other ≠ request := by
        rintro rfl
        rw [hlook] at hfound
        cases hfound
      exact ⟨found, (AList.lookup_insert_ne hne).trans hfound⟩
    · exact hkept

theorem Bounded.cancel (h : table.Bounded) (request : RequestId) (action : ActionId)
    (domain : DomainId) (now : Nat) : (table.cancel request action domain now).2.Bounded := by
  have hexpired := h.expire now
  unfold DedupTable.cancel
  dsimp only
  cases hlook : (table.expire now).entries.lookup request with
  | some state =>
    dsimp only
    repeat' split
    all_goals exact hexpired
  | none =>
    dsimp only
    split
    · next hroom =>
      rw [Bounded, DedupTable.len, length_insert_none hlook]
      unfold DedupTable.len at hroom
      dsimp only
      omega
    · exact hexpired

@[simp] theorem cancel_maxEntries (table : DedupTable) (request : RequestId) (action : ActionId)
    (domain : DomainId) (now : Nat) :
    (table.cancel request action domain now).2.maxEntries = table.maxEntries := by
  unfold cancel
  dsimp only
  repeat' split
  all_goals rfl

/-- A completion changes nothing, or ends the entry of its request only. -/
theorem complete_cases (table : DedupTable) (message : RuntimeMessage) (now : Nat) :
    (table.complete message now).2 = table ∨
    ∃ old state, table.entries.lookup message.request = some old ∧
      (table.complete message now).2.entries = table.entries.insert message.request state ∧
      (table.complete message now).2.maxEntries = table.maxEntries := by
  unfold complete
  split
  · exact .inl rfl
  · exact .inl rfl
  · next state _ hlook =>
    split
    · exact .inl rfl
    · split
      · exact .inl rfl
      · next bytes _ =>
        refine .inr ⟨state, ?_⟩
        unfold retainResponse
        split
        · exact ⟨_, hlook, rfl, rfl⟩
        · exact ⟨_, hlook, rfl, rfl⟩

theorem complete_runs {message : RuntimeMessage} (hne : other ≠ message.request)
    (h : table.Runs other otherAction otherDomain) :
    (table.complete message now).2.Runs other otherAction otherDomain := by
  rcases complete_cases table message now with hsame | ⟨_, _, -, hentries, -⟩
  · rwa [hsame]
  · obtain ⟨found, hfound⟩ := h
    refine ⟨found, ?_⟩
    rw [hentries, AList.lookup_insert_ne hne, hfound]

/-- The response of a request that runs is accepted. -/
theorem complete_ok {message : RuntimeMessage} {bytes : Nat}
    (h : table.Runs message.request message.action message.domain)
    (hbytes : payloadBytes message.payload = some bytes) (now : Nat) :
    table.complete message now = (.ok (), table.retainResponse message bytes now) := by
  obtain ⟨token, hrunning⟩ := h
  unfold complete
  rw [hrunning]
  simp [DedupState.target, hbytes]

theorem Bounded.complete (h : table.Bounded) (message : RuntimeMessage) (now : Nat) :
    (table.complete message now).2.Bounded := by
  rcases complete_cases table message now with hsame | ⟨_, _, hlook, hentries, hmax⟩
  · rwa [hsame]
  · rw [Bounded, DedupTable.len, hentries, hmax, length_insert_some hlook]
    exact h

end DedupTable

end Hataori.Runtime
