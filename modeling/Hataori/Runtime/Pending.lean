import Hataori.Lib.Maps
import Hataori.Runtime.Error

/-!
# Calls a locality waits for

The `PendingTable` of `hataori-runtime/src/pending.rs`. A call that runs at this locality
also has a cancellation token, which is a number here. The promise of a call is left out.
-/

namespace Hataori.Runtime

open Lib.Maps

/-- `PendingEntry`. -/
structure PendingEntry where
  destination : LocalityId
  action : ActionId
  domain : DomainId
  expiresAt : Nat
  deadline : Nat
  cancelToken : Option Nat
  deriving DecidableEq, Repr

/-- `PendingTable`. -/
structure PendingTable where
  entries : Map RequestId PendingEntry
  limit : Nat

namespace PendingTable

/-- `PendingTable::len`. -/
def len (table : PendingTable) : Nat := table.entries.entries.length

/-- `PendingTable::insert`; an entry that is there is replaced. -/
def insert (table : PendingTable) (request : RequestId) (entry : PendingEntry) :
    Except RuntimeError PendingTable :=
  if table.limit ≤ table.len then .error (.resourceExhausted .pendingCalls table.limit)
  else .ok { table with entries := table.entries.insert request entry }

/-- `PendingTable::take_checked`. -/
def takeChecked (table : PendingTable) (request : RequestId) (source : LocalityId)
    (action : ActionId) : Except RuntimeError (Option PendingEntry × PendingTable) :=
  match table.entries.lookup request with
  | none => .ok (none, table)
  | some entry =>
    if entry.destination ≠ source ∨ entry.action ≠ action then
      .error (.protocol "result source or action does not match pending request")
    else .ok (some entry, { table with entries := table.entries.erase request })

/-- `PendingTable::remove`. -/
def remove (table : PendingTable) (request : RequestId) : Option PendingEntry × PendingTable :=
  (table.entries.lookup request, { table with entries := table.entries.erase request })

/-- `PendingTable::expired`. -/
def expired (table : PendingTable) (now : Nat) : List PendingEntry × PendingTable :=
  ((values table.entries).filter fun entry => decide (entry.expiresAt ≤ now),
    { table with entries := retain (fun _ entry => !decide (entry.expiresAt ≤ now)) table.entries })

/-- `PendingTable::drain`. -/
def drain (table : PendingTable) : List PendingEntry × PendingTable :=
  (values table.entries, { table with entries := ∅ })

/-- The table is within its limit. -/
def Bounded (table : PendingTable) : Prop := table.len ≤ table.limit

variable {table next : PendingTable} {request : RequestId} {entry : PendingEntry}

theorem erase_len (table : PendingTable) (request : RequestId) :
    (table.entries.erase request).entries.length ≤ table.len :=
  (List.kerase_sublist request table.entries.entries).length_le

theorem Bounded.insert (h : table.insert request entry = .ok next) : next.Bounded := by
  unfold PendingTable.insert at h
  split at h
  · cases h
  · next hroom =>
    cases h
    have hlength : (table.entries.insert request entry).entries.length ≤
        table.entries.entries.length + 1 :=
      Nat.add_le_add_right (erase_len table request) 1
    unfold PendingTable.len at hroom
    unfold Bounded PendingTable.len
    dsimp only
    omega

theorem Bounded.remove (h : table.Bounded) (request : RequestId) :
    (table.remove request).2.Bounded :=
  (erase_len table request).trans h

theorem Bounded.expired (h : table.Bounded) (now : Nat) : (table.expired now).2.Bounded :=
  (List.length_filter_le _ _).trans h

theorem bounded_drain (table : PendingTable) : table.drain.2.Bounded := Nat.zero_le _

/-- What `take_checked` comes to. -/
theorem takeChecked_cases {source : LocalityId} {action : ActionId} {found : Option PendingEntry}
    (h : table.takeChecked request source action = .ok (found, next)) :
    (found = none ∧ table.entries.lookup request = none ∧ next = table) ∨
    ∃ entry, found = some entry ∧ table.entries.lookup request = some entry ∧
      entry.destination = source ∧ entry.action = action ∧ next = (table.remove request).2 := by
  unfold takeChecked at h
  split at h
  · next hlook =>
    cases h
    exact .inl ⟨rfl, hlook, rfl⟩
  · next entry hlook =>
    split at h
    · cases h
    · next hmatch =>
      cases h
      rw [not_or, not_not, not_not] at hmatch
      exact .inr ⟨entry, rfl, hlook, hmatch.1, hmatch.2, rfl⟩

/-- What happens to the table apart from new calls. -/
inductive Shrinks (table : PendingTable) : PendingTable → Prop
  | same : Shrinks table table
  | remove (request : RequestId) : Shrinks table (table.remove request).2
  | expired (now : Nat) : Shrinks table (table.expired now).2
  | drain : Shrinks table table.drain.2

theorem Shrinks.bounded (h : table.Shrinks next) (hbounded : table.Bounded) : next.Bounded := by
  cases h with
  | same => exact hbounded
  | remove request => exact hbounded.remove request
  | expired now => exact hbounded.expired now
  | drain => exact bounded_drain table

theorem lookup_remove_ne {other : RequestId} (hne : other ≠ request) :
    (table.remove request).2.entries.lookup other = table.entries.lookup other :=
  AList.lookup_erase_ne hne

@[simp] theorem lookup_remove (table : PendingTable) (request : RequestId) :
    (table.remove request).2.entries.lookup request = none :=
  AList.lookup_erase request table.entries

theorem lookup_expired (table : PendingTable) (now : Nat) (request : RequestId) :
    (table.expired now).2.entries.lookup request =
      (table.entries.lookup request).filter fun entry => !decide (entry.expiresAt ≤ now) :=
  lookup_retain _ table.entries request

theorem lookup_insert (h : table.insert request entry = .ok next) :
    next.entries.lookup request = some entry := by
  unfold PendingTable.insert at h
  split at h
  · cases h
  · cases h
    exact AList.lookup_insert table.entries

theorem lookup_insert_ne {other : RequestId} (h : table.insert request entry = .ok next)
    (hne : other ≠ request) : next.entries.lookup other = table.entries.lookup other := by
  unfold PendingTable.insert at h
  split at h
  · cases h
  · cases h
    exact AList.lookup_insert_ne hne

theorem limit_insert (h : table.insert request entry = .ok next) : next.limit = table.limit := by
  unfold PendingTable.insert at h
  split at h
  · cases h
  · cases h
    rfl

theorem Shrinks.limit_eq (h : table.Shrinks next) : next.limit = table.limit := by
  cases h <;> rfl

/-- What is there afterwards was there before. -/
theorem Shrinks.lookup (h : table.Shrinks next) (hlook : next.entries.lookup request = some entry) :
    table.entries.lookup request = some entry := by
  cases h with
  | same => exact hlook
  | remove other =>
    by_cases heq : request = other
    · rw [heq, lookup_remove] at hlook
      cases hlook
    · rwa [lookup_remove_ne heq] at hlook
  | expired now =>
    rw [lookup_expired] at hlook
    exact (Option.filter_eq_some_iff.mp hlook).1
  | drain => cases hlook

end PendingTable

end Hataori.Runtime
