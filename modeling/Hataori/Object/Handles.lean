import Hataori.Lib.Machine
import Hataori.Lib.Maps
import Hataori.Runtime.Error

/-!
# Handles

`LocalLease` and `LocalLeaseManager` of `hataori-runtime/src/object.rs`: the handles of a locality
on one object share a lease, which the manager knows weakly, and the lease is given back when the
last of them is dropped. Another thread may come between the last reference going and the
destructor of the lease, and between the two halves of `clear`.
-/

namespace Hataori.Object

open Hataori.Runtime Lib.Machine Lib.Maps

/-- `LocalLease`. `strong` counts the references that handles and futures have to it, and `dropped`
    says that its destructor has run. -/
structure LocalLease where
  object : ObjectId
  objectType : ObjectTypeId
  location : ObjectLocation
  active : Bool
  nextRenewal : Nat
  strong : Nat
  dropped : Bool

/-- `LocalLeaseManager`, with the leases it has made, known by their numbers; the references that
    `clear` still has, and the leases for which `release_object` was called. -/
structure LocalLeaseManager where
  limit : Nat
  renewInterval : Nat
  entries : Map ObjectId Nat
  leases : List LocalLease
  clearing : List Nat
  released : List Nat

/-- What a thread does with a handle or with the manager. -/
inductive Handling where
  | attach (object : ObjectId) (objectType : ObjectTypeId) (location : ObjectLocation) (now : Nat)
  | clone (id : Nat)
  | letGo (id : Nat)
  | destroy (id : Nat)
  | due (now : Nat)
  | drain
  | deactivate

namespace LocalLeaseManager

/-- `LocalLeaseManager::new`. -/
def new (limit renewInterval : Nat) : LocalLeaseManager := ⟨limit, renewInterval, ∅, [], [], []⟩

/-- `Weak::strong_count`. -/
def strongCount (manager : LocalLeaseManager) (id : Nat) : Nat :=
  manager.leases[id]?.elim 0 LocalLease.strong + manager.clearing.count id

/-- One more reference. -/
def borrow (manager : LocalLeaseManager) (id : Nat) : LocalLeaseManager :=
  { manager with
    leases := manager.leases.modify id fun lease => { lease with strong := lease.strong + 1 } }

/-- A reference is dropped. -/
def letGo (manager : LocalLeaseManager) (id : Nat) : LocalLeaseManager :=
  { manager with
    leases := manager.leases.modify id fun lease => { lease with strong := lease.strong - 1 } }

/-- The entries whose lease is alive stay. -/
def sweep (manager : LocalLeaseManager) : LocalLeaseManager :=
  { manager with entries := retain (fun _ id => manager.strongCount id != 0) manager.entries }

/-- `LocalLeaseManager::attach`; the handle is known by its lease. -/
def attach (manager : LocalLeaseManager) (object : ObjectId) (objectType : ObjectTypeId)
    (location : ObjectLocation) (now : Nat) : Except RuntimeError Nat × LocalLeaseManager :=
  match (manager.entries.lookup object).filter fun id => manager.strongCount id != 0 with
  | some id => (.ok id, manager.borrow id)
  | none =>
    let swept := manager.sweep
    if manager.limit ≤ swept.entries.entries.length then
      (.error (.resourceExhausted .localityLeases manager.limit), swept)
    else
      let lease : LocalLease :=
        ⟨object, objectType, location, true, now + manager.renewInterval, 1, false⟩
      (.ok manager.leases.length, { swept with
        entries := swept.entries.insert object manager.leases.length
        leases := manager.leases ++ [lease] })

/-- The lease is active and its time to be renewed has come. -/
def isDue (manager : LocalLeaseManager) (now id : Nat) : Bool :=
  manager.leases[id]?.any fun lease => lease.active && decide (lease.nextRenewal ≤ now)

/-- `LocalLeaseManager::due`: the leases to renew, each with a reference of its own. -/
def due (manager : LocalLeaseManager) (now : Nat) : List Nat × LocalLeaseManager :=
  let swept := manager.sweep
  let ids := (values swept.entries).filter (manager.isDue now)
  (ids, { swept with
    leases := manager.leases.mapIdx fun id lease =>
      if id ∈ ids then
        { lease with nextRenewal := now + manager.renewInterval, strong := lease.strong + 1 }
      else lease })

/-- `LocalLease::deactivate`. -/
def deactivate (manager : LocalLeaseManager) (id : Nat) : LocalLeaseManager :=
  if manager.leases[id]?.any LocalLease.active then
    { manager with
      leases := manager.leases.modify id fun lease => { lease with active := false }
      released := manager.released ++ [id] }
  else manager

/-- The destructor of a lease. -/
def destroy (manager : LocalLeaseManager) (id : Nat) : LocalLeaseManager :=
  { manager.deactivate id with
    leases := (manager.deactivate id).leases.modify id fun lease => { lease with dropped := true } }

/-- The leases of the manager that can be upgraded. -/
def alive (manager : LocalLeaseManager) : List Nat :=
  (values manager.entries).filter fun id => manager.strongCount id != 0

/-- The first half of `LocalLeaseManager::clear`, up to where it gives the lock back. -/
def drain (manager : LocalLeaseManager) : LocalLeaseManager :=
  { manager with
    entries := ∅
    clearing := manager.clearing ++ manager.alive }

/-- One step of one thread. -/
def step (manager : LocalLeaseManager) : Handling → Option LocalLeaseManager
  | .attach object objectType location now =>
    some (manager.attach object objectType location now).2
  | .clone id =>
    if manager.leases[id]?.any (0 < ·.strong) then some (manager.borrow id) else none
  | .letGo id =>
    if manager.leases[id]?.any (0 < ·.strong) then some (manager.letGo id) else none
  | .destroy id =>
    -- The destructor runs once, when no reference is left.
    if manager.leases[id]?.any (!·.dropped) ∧ manager.strongCount id = 0 then
      some (manager.destroy id)
    else none
  | .due now => some (manager.due now).2
  | .drain => some manager.drain
  | .deactivate =>
    match manager.clearing with
    | [] => none
    | id :: rest => some { manager.deactivate id with clearing := rest }

/-! ## The invariant -/

/-- What every step keeps. -/
structure Sound (manager : LocalLeaseManager) : Prop where
  once : manager.released.Nodup
  released : ∀ id, id ∈ manager.released ↔
    ∃ lease, manager.leases[id]? = some lease ∧ lease.active = false
  dropped : ∀ id lease, manager.leases[id]? = some lease → lease.dropped = true →
    lease.active = false ∧ manager.strongCount id = 0
  names : ∀ object id, manager.entries.lookup object = some id →
    ∃ lease, manager.leases[id]? = some lease ∧ lease.object = object
  listed : ∀ id lease, manager.leases[id]? = some lease → manager.strongCount id ≠ 0 →
    lease.active = true → id ∉ manager.clearing → manager.entries.lookup lease.object = some id
  cleared : ∀ id ∈ manager.clearing, id < manager.leases.length ∧
    ∀ object, manager.entries.lookup object ≠ some id
  clearedOnce : manager.clearing.Nodup
  room : manager.entries.entries.length ≤ manager.limit

variable {manager next final : LocalLeaseManager}

theorem sound_new (limit renewInterval : Nat) : (new limit renewInterval).Sound where
  once := List.nodup_nil
  released id := by simp [new]
  dropped id lease h := nomatch h
  names object id h := nomatch h
  listed id lease h := nomatch h
  cleared id h := nomatch h
  clearedOnce := List.nodup_nil
  room := Nat.zero_le _

/-- The references and times of leases may change, but no lease without a reference gets one, and
    the destructor may have run where there is nothing left to do. -/
theorem Sound.touch (h : manager.Sound) {leases : List LocalLease}
    {change : Nat → LocalLease → LocalLease}
    (hget : ∀ id, leases[id]? = manager.leases[id]?.map (change id))
    (hkeeps : ∀ id lease, manager.leases[id]? = some lease →
      (change id lease).object = lease.object ∧ (change id lease).active = lease.active ∧
      ((change id lease).dropped = true → lease.dropped = true ∨
        lease.active = false ∧ manager.strongCount id = 0) ∧
      ((change id lease).strong ≠ 0 → manager.strongCount id ≠ 0)) :
    Sound { manager with leases := leases } := by
  have hcount : ∀ id lease, manager.leases[id]? = some lease →
      strongCount { manager with leases := leases } id ≠ 0 → manager.strongCount id ≠ 0 := by
    intro id lease hlease hcount
    by_cases hstrong : (change id lease).strong = 0
    · unfold strongCount at hcount ⊢
      dsimp only at hcount
      rw [hget, hlease, Option.map_some, Option.elim_some, hstrong] at hcount
      omega
    · exact (hkeeps id lease hlease).2.2.2 hstrong
  have hback : ∀ id after, leases[id]? = some after → ∃ lease,
      manager.leases[id]? = some lease ∧ change id lease = after := by
    intro id after hafter
    rw [hget] at hafter
    exact Option.map_eq_some_iff.mp hafter
  refine ⟨h.once, fun id => ?_, fun id after hafter hdropped => ?_, fun object id hname => ?_,
    fun id after hafter hstrong hactive hnot => ?_, fun id hid => ?_, h.clearedOnce, h.room⟩
  · rw [h.released]
    constructor
    · rintro ⟨lease, hlease, hinactive⟩
      refine ⟨change id lease, ?_, ?_⟩
      · rw [hget, hlease]
        rfl
      · rw [(hkeeps id lease hlease).2.1, hinactive]
    · rintro ⟨after, hafter, hinactive⟩
      obtain ⟨lease, hlease, rfl⟩ := hback id after hafter
      exact ⟨lease, hlease, (hkeeps id lease hlease).2.1 ▸ hinactive⟩
  · obtain ⟨lease, hlease, rfl⟩ := hback id after hafter
    obtain ⟨-, hactive, hdrop, -⟩ := hkeeps id lease hlease
    obtain ⟨hinactive, hzero⟩ : lease.active = false ∧ manager.strongCount id = 0 :=
      (hdrop hdropped).elim (h.dropped id lease hlease) fun hboth => hboth
    refine ⟨hactive ▸ hinactive, ?_⟩
    by_contra hsome
    exact hcount id lease hlease hsome hzero
  · obtain ⟨lease, hlease, hobject⟩ := h.names object id hname
    refine ⟨change id lease, ?_, ?_⟩
    · rw [hget, hlease]
      rfl
    · rw [(hkeeps id lease hlease).1, hobject]
  · obtain ⟨lease, hlease, rfl⟩ := hback id after hafter
    obtain ⟨hobject, hsame, -, -⟩ := hkeeps id lease hlease
    rw [hobject]
    exact h.listed id lease hlease (hcount id lease hlease hstrong) (hsame ▸ hactive) hnot
  · obtain ⟨hbelow, hnone⟩ := h.cleared id hid
    refine ⟨?_, hnone⟩
    by_contra hout
    have hget := hget id
    rw [List.getElem?_eq_none (not_lt.mp hout), List.getElem?_eq_getElem hbelow] at hget
    cases hget

theorem lookup_sweep (manager : LocalLeaseManager) (object : ObjectId) :
    manager.sweep.entries.lookup object =
      (manager.entries.lookup object).filter fun id => manager.strongCount id != 0 :=
  lookup_retain _ _ _

theorem lookup_of_sweep {object : ObjectId} {id : Nat}
    (h : manager.sweep.entries.lookup object = some id) :
    manager.entries.lookup object = some id ∧ manager.strongCount id ≠ 0 := by
  rw [lookup_sweep, Option.filter_eq_some_iff] at h
  exact ⟨h.1, bne_iff_ne.mp h.2⟩

theorem Sound.sweep (h : manager.Sound) : manager.sweep.Sound where
  once := h.once
  released := h.released
  dropped := h.dropped
  names object id hname := h.names object id (lookup_of_sweep hname).1
  listed id lease hlease hstrong hactive hnot := by
    rw [lookup_sweep, h.listed id lease hlease hstrong hactive hnot, Option.filter_some]
    exact if_pos (bne_iff_ne.mpr hstrong)
  cleared id hid := ⟨(h.cleared id hid).1, fun object hname =>
    (h.cleared id hid).2 object (lookup_of_sweep hname).1⟩
  clearedOnce := h.clearedOnce
  room := (List.length_filter_le _ _).trans h.room

theorem getElem?_borrow (leases : List LocalLease) (borrowed id : Nat)
    (change : LocalLease → LocalLease) :
    (leases.modify borrowed change)[id]? =
      leases[id]?.map (if borrowed = id then change else fun lease => lease) := by
  rw [List.getElem?_modify]
  split <;> rfl

/-- The references to one lease change, to a lease that has one. -/
theorem Sound.modify (h : manager.Sound) (id : Nat) {change : LocalLease → LocalLease}
    (hkeeps : ∀ lease, (change lease).object = lease.object ∧
      (change lease).active = lease.active ∧ (change lease).dropped = lease.dropped)
    (hstrong : manager.strongCount id ≠ 0) :
    Sound { manager with leases := manager.leases.modify id change } := by
  refine h.touch (getElem?_borrow manager.leases id · change) fun other lease hlease => ?_
  split
  next hsame =>
    subst hsame
    obtain ⟨hobject, hactive, hdropped⟩ := hkeeps lease
    exact ⟨hobject, hactive, fun hdrop => Or.inl (hdropped ▸ hdrop), fun _ => hstrong⟩
  · refine ⟨rfl, rfl, Or.inl, fun hsome => ?_⟩
    have hpositive : lease.strong ≠ 0 := hsome
    rw [strongCount, hlease, Option.elim_some]
    omega

theorem Sound.letGo (h : manager.Sound) (id : Nat) : (manager.letGo id).Sound := by
  refine h.touch (getElem?_borrow manager.leases id · _) fun other lease hlease => ?_
  have hcount : lease.strong ≠ 0 → manager.strongCount other ≠ 0 := by
    rw [strongCount, hlease, Option.elim_some]
    omega
  split
  · exact ⟨rfl, rfl, Or.inl, fun hsome => hcount fun hzero => hsome (Nat.sub_eq_zero_of_le (by omega))⟩
  · exact ⟨rfl, rfl, Or.inl, hcount⟩

theorem strongCount_of_any {id : Nat} (h : manager.leases[id]?.any (0 < ·.strong) = true) :
    manager.strongCount id ≠ 0 := by
  obtain ⟨lease, hlease, hstrong⟩ := (Option.any_eq_true _ _).mp h
  have hpositive : 0 < lease.strong := of_decide_eq_true hstrong
  rw [strongCount, hlease, Option.elim_some]
  omega

theorem getElem?_push {leases : List LocalLease} {lease found : LocalLease} {id : Nat}
    (h : (leases ++ [lease])[id]? = some found) :
    leases[id]? = some found ∨ id = leases.length ∧ found = lease := by
  rcases Nat.lt_or_ge id leases.length with hbelow | habove
  · rw [List.getElem?_append_left hbelow] at h
    exact Or.inl h
  · rw [List.getElem?_append_right habove, List.getElem?_singleton] at h
    split at h
    next hzero =>
      cases h
      exact Or.inr ⟨by omega, rfl⟩
    · cases h

/-- A lease is made for an object that has none with a reference. -/
theorem Sound.push (h : manager.Sound) (lease : LocalLease)
    (hnone : manager.entries.lookup lease.object = none) (hactive : lease.active = true)
    (hfresh : lease.dropped = false) (hroom : manager.entries.entries.length < manager.limit) :
    Sound { manager with
      entries := manager.entries.insert lease.object manager.leases.length
      leases := manager.leases ++ [lease] } := by
  have hold : ∀ id found, manager.leases[id]? = some found →
      (manager.leases ++ [lease])[id]? = some found := fun id found hfound =>
    (List.getElem?_append_left (List.getElem?_eq_some_iff.mp hfound).1).trans hfound
  have hcount : ∀ id found, manager.leases[id]? = some found → strongCount { manager with
      entries := manager.entries.insert lease.object manager.leases.length
      leases := manager.leases ++ [lease] } id = manager.strongCount id := by
    intro id found hfound
    unfold strongCount
    dsimp only
    rw [hold id found hfound, hfound]
  refine ⟨h.once, fun id => ?_, fun id found hfound hdropped => ?_, fun object id hname => ?_,
    fun id found hfound hstrong hon hnot => ?_, fun id hid => ?_, h.clearedOnce, ?_⟩
  · rw [h.released]
    constructor
    · rintro ⟨found, hfound, hinactive⟩
      exact ⟨found, hold id found hfound, hinactive⟩
    · rintro ⟨found, hfound, hinactive⟩
      rcases getElem?_push hfound with hfound | ⟨-, rfl⟩
      · exact ⟨found, hfound, hinactive⟩
      · cases hactive.symm.trans hinactive
  · rcases getElem?_push hfound with hfound | ⟨-, rfl⟩
    · rw [hcount id found hfound]
      exact h.dropped id found hfound hdropped
    · cases hfresh.symm.trans hdropped
  · by_cases hsame : object = lease.object
    · rw [hsame, AList.lookup_insert] at hname
      cases hname
      exact ⟨lease, List.getElem?_concat_length, hsame.symm⟩
    · rw [AList.lookup_insert_ne hsame] at hname
      obtain ⟨found, hfound, hobject⟩ := h.names object id hname
      exact ⟨found, hold id found hfound, hobject⟩
  · rcases getElem?_push hfound with hfound | ⟨rfl, rfl⟩
    · rw [hcount id found hfound] at hstrong
      have hlisted := h.listed id found hfound hstrong hon hnot
      have hother : found.object ≠ lease.object := by
        intro hsame
        rw [hsame, hnone] at hlisted
        cases hlisted
      rw [AList.lookup_insert_ne hother, hlisted]
    · exact AList.lookup_insert _
  · obtain ⟨hbelow, hnames⟩ := h.cleared id hid
    refine ⟨?_, fun object hname => ?_⟩
    · rw [List.length_append]
      omega
    · by_cases hsame : object = lease.object
      · rw [hsame, AList.lookup_insert] at hname
        cases hname
        exact lt_irrefl _ hbelow
      · rw [AList.lookup_insert_ne hsame] at hname
        exact hnames object hname
  · dsimp only
    rw [AList.entries_insert_of_notMem (AList.lookup_eq_none.mp hnone)]
    exact hroom

theorem Sound.attach (h : manager.Sound) (object : ObjectId) (objectType : ObjectTypeId)
    (location : ObjectLocation) (now : Nat) :
    (manager.attach object objectType location now).2.Sound := by
  unfold LocalLeaseManager.attach
  split
  next id hfound =>
    rw [Option.filter_eq_some_iff] at hfound
    exact h.modify id (fun _ => ⟨rfl, rfl, rfl⟩) (bne_iff_ne.mp hfound.2)
  next hnone =>
    dsimp only
    split
    · exact h.sweep
    next hroom =>
      rw [← lookup_sweep] at hnone
      exact h.sweep.push ⟨object, objectType, location, true, _, 1, false⟩ hnone rfl rfl
        (not_le.mp hroom)

theorem Sound.due (h : manager.Sound) (now : Nat) : (manager.due now).2.Sound := by
  refine h.sweep.touch (fun id => List.getElem?_mapIdx) fun id lease hlease => ?_
  split
  next hdue =>
    refine ⟨rfl, rfl, Or.inl, fun _ => ?_⟩
    obtain ⟨object, hname⟩ := mem_values_iff.mp (List.mem_filter.mp hdue).1
    exact (lookup_of_sweep hname).2
  · refine ⟨rfl, rfl, Or.inl, fun hsome => ?_⟩
    rw [strongCount, hlease, Option.elim_some]
    omega

theorem deactivate_of_active {id : Nat} {lease : LocalLease}
    (hlease : manager.leases[id]? = some lease) (hactive : lease.active = true) :
    manager.deactivate id = { manager with
      leases := manager.leases.modify id fun lease => { lease with active := false }
      released := manager.released ++ [id] } := by
  unfold deactivate
  rw [hlease]
  exact if_pos hactive

/-- A lease that is not active has been released. -/
theorem deactivate_of_inactive {id : Nat} (h : ∀ lease, manager.leases[id]? = some lease →
    lease.active = false) : manager.deactivate id = manager := by
  unfold deactivate
  refine if_neg fun hactive => ?_
  obtain ⟨lease, hlease, hon⟩ := (Option.any_eq_true _ _).mp hactive
  cases (h lease hlease).symm.trans hon

theorem strongCount_deactivate (manager : LocalLeaseManager) (id other : Nat) :
    (manager.deactivate id).strongCount other = manager.strongCount other := by
  unfold deactivate
  split
  · unfold strongCount
    dsimp only
    rw [getElem?_borrow]
    cases manager.leases[other]? with
    | none => rfl
    | some found =>
      rw [Option.map_some]
      split <;> rfl
  · rfl

/-- The release is sent for a lease that has not been released. -/
theorem Sound.deactivate (h : manager.Sound) (id : Nat) : (manager.deactivate id).Sound := by
  by_cases hactive : ∃ lease, manager.leases[id]? = some lease ∧ lease.active = true
  · obtain ⟨lease, hlease, hactive⟩ := hactive
    rw [deactivate_of_active hlease hactive]
    have hget := fun other => getElem?_borrow manager.leases id other
      fun lease => { lease with active := false }
    have hcount := strongCount_deactivate manager id
    rw [deactivate_of_active hlease hactive] at hcount
    have hnew : id ∉ manager.released := by
      intro hmem
      obtain ⟨found, hfound, hinactive⟩ := (h.released id).mp hmem
      rw [hlease] at hfound
      cases hfound
      cases hactive.symm.trans hinactive
    have hself : (manager.leases.modify id fun lease => { lease with active := false })[id]? =
        some { lease with active := false } := by
      rw [hget, hlease, Option.map_some, if_pos rfl]
    have hothers : ∀ other, other ≠ id →
        (manager.leases.modify id fun lease => { lease with active := false })[other]? =
          manager.leases[other]? := by
      intro other hother
      rw [hget, if_neg (Ne.symm hother)]
      exact Option.map_id'
    refine ⟨?_, fun other => ?_, fun other found hfound hdropped => ?_, fun object other hname => ?_,
      fun other found hfound hstrong hon hnot => ?_, fun other hother => ?_, h.clearedOnce, h.room⟩
    · exact List.nodup_append.mpr ⟨h.once, List.nodup_singleton id, fun a ha b hb hsame => by
        rw [List.mem_singleton.mp hb] at hsame
        exact hnew (hsame ▸ ha)⟩
    · rw [List.mem_append, List.mem_singleton]
      by_cases hsame : other = id
      · subst hsame
        exact ⟨fun _ => ⟨_, hself, rfl⟩, fun _ => Or.inr rfl⟩
      · rw [or_iff_left hsame, h.released]
        dsimp only
        rw [hothers other hsame]
    · rw [hcount]
      by_cases hsame : other = id
      · subst hsame
        rw [hself] at hfound
        cases hfound
        exact ⟨rfl, (h.dropped other lease hlease hdropped).2⟩
      · rw [hothers other hsame] at hfound
        exact h.dropped other found hfound hdropped
    · obtain ⟨found, hfound, hobject⟩ := h.names object other hname
      by_cases hsame : other = id
      · subst hsame
        rw [hlease] at hfound
        cases hfound
        exact ⟨_, hself, hobject⟩
      · exact ⟨found, (hothers other hsame).trans hfound, hobject⟩
    · rw [hcount] at hstrong
      by_cases hsame : other = id
      · subst hsame
        rw [hself] at hfound
        cases hfound
        cases hon
      · rw [hothers other hsame] at hfound
        exact h.listed other found hfound hstrong hon hnot
    · refine ⟨?_, (h.cleared other hother).2⟩
      rw [List.length_modify]
      exact (h.cleared other hother).1
  · rw [deactivate_of_inactive]
    · exact h
    · intro lease hlease
      rw [← Bool.not_eq_true]
      exact fun hon => hactive ⟨lease, hlease, hon⟩

theorem inactive_deactivate (manager : LocalLeaseManager) (id : Nat) {lease : LocalLease}
    (h : (manager.deactivate id).leases[id]? = some lease) : lease.active = false := by
  unfold deactivate at h
  split at h
  · dsimp only at h
    rw [getElem?_borrow, if_pos rfl] at h
    obtain ⟨found, -, rfl⟩ := Option.map_eq_some_iff.mp h
    rfl
  next hoff =>
    rw [h, Option.any_some] at hoff
    exact Bool.not_eq_true _ ▸ hoff

/-- The destructor of a lease that has no reference left. -/
theorem Sound.destroy (h : manager.Sound) {id : Nat} (hzero : manager.strongCount id = 0) :
    (manager.destroy id).Sound := by
  have hoff := h.deactivate id
  refine hoff.touch (getElem?_borrow _ id · _) fun other lease hlease => ?_
  split
  next hsame =>
    subst hsame
    rw [strongCount_deactivate]
    refine ⟨rfl, rfl, fun _ => Or.inr ⟨inactive_deactivate manager id hlease, hzero⟩, fun hsome => ?_⟩
    rw [← strongCount_deactivate manager id, strongCount, hlease, Option.elim_some] at hzero
    exact absurd (Nat.eq_zero_of_add_eq_zero_right hzero) hsome
  · refine ⟨rfl, rfl, Or.inl, fun hsome => ?_⟩
    rw [strongCount, hlease, Option.elim_some]
    have hpositive : lease.strong ≠ 0 := hsome
    omega

/-- Two objects are not listed with one lease. -/
theorem Sound.nodup_values (h : manager.Sound) : (values manager.entries).Nodup := by
  refine List.Nodup.map_on ?_ (List.NodupKeys.nodup manager.entries.nodupKeys)
  rintro ⟨object, id⟩ hfirst ⟨other, twin⟩ hsecond (rfl : id = twin)
  obtain ⟨lease, hlease, rfl⟩ := h.names object id (List.mem_dlookup manager.entries.nodupKeys hfirst)
  obtain ⟨found, hfound, rfl⟩ := h.names other id (List.mem_dlookup manager.entries.nodupKeys hsecond)
  rw [hlease] at hfound
  cases hfound
  rfl

/-- The first half of `clear`. -/
theorem Sound.drain (h : manager.Sound) : manager.drain.Sound := by
  have hmem : ∀ id, id ∈ manager.alive ↔
      (∃ object, manager.entries.lookup object = some id) ∧ manager.strongCount id ≠ 0 := by
    intro id
    rw [alive, List.mem_filter, mem_values_iff, bne_iff_ne]
  have hcount : ∀ id, manager.drain.strongCount id =
      manager.strongCount id + manager.alive.count id := by
    intro id
    unfold strongCount LocalLeaseManager.drain
    dsimp only
    rw [List.count_append]
    omega
  refine ⟨h.once, h.released, fun id lease hlease hdropped => ?_, fun _ _ hname => (nomatch hname),
    fun id lease hlease hstrong hactive hnot => ?_, fun id hid => ⟨?_, fun _ hname => nomatch hname⟩,
    ?_, Nat.zero_le _⟩
  · obtain ⟨hinactive, hzero⟩ := h.dropped id lease hlease hdropped
    refine ⟨hinactive, ?_⟩
    rw [hcount, hzero, List.count_eq_zero.mpr fun hin => ((hmem id).mp hin).2 hzero]
  · have hout := fun hin => hnot (List.mem_append_right manager.clearing hin)
    rw [hcount, List.count_eq_zero.mpr hout] at hstrong
    have hlisted := h.listed id lease hlease hstrong hactive fun hin =>
      hnot (List.mem_append_left _ hin)
    exact absurd ((hmem id).mpr ⟨⟨_, hlisted⟩, hstrong⟩) hout
  · rcases List.mem_append.mp hid with hbefore | hnow
    · exact (h.cleared id hbefore).1
    · obtain ⟨⟨object, hname⟩, -⟩ := (hmem id).mp hnow
      obtain ⟨lease, hlease, -⟩ := h.names object id hname
      exact (List.getElem?_eq_some_iff.mp hlease).1
  · refine List.nodup_append.mpr ⟨h.clearedOnce, h.nodup_values.filter _, ?_⟩
    intro id hbefore other hnow hsame
    obtain ⟨⟨object, hname⟩, -⟩ := (hmem other).mp hnow
    exact (h.cleared id hbefore).2 object (hsame ▸ hname)

/-- `clear` lets a lease go that is not active any more. -/
theorem Sound.pop (h : manager.Sound) {id : Nat} {rest : List Nat}
    (hclearing : manager.clearing = id :: rest)
    (hoff : ∀ lease, manager.leases[id]? = some lease → lease.active = false) :
    Sound { manager with clearing := rest } := by
  have hcount : ∀ other, strongCount { manager with clearing := rest } other ≤
      manager.strongCount other := by
    intro other
    unfold strongCount
    dsimp only
    rw [hclearing]
    exact Nat.add_le_add_left (List.count_le_count_cons ..) _
  have honce := h.clearedOnce
  rw [hclearing] at honce
  refine ⟨h.once, h.released, fun other lease hlease hdropped => ?_, h.names,
    fun other lease hlease hstrong hactive hnot => ?_, fun other hother => ?_,
    (List.nodup_cons.mp honce).2, h.room⟩
  · obtain ⟨hinactive, hzero⟩ := h.dropped other lease hlease hdropped
    exact ⟨hinactive, Nat.le_zero.mp (hzero ▸ hcount other)⟩
  · refine h.listed other lease hlease ?_ hactive ?_
    · have hle := hcount other
      omega
    · rw [hclearing]
      intro hin
      rcases List.mem_cons.mp hin with rfl | hin
      · cases (hoff lease hlease).symm.trans hactive
      · exact hnot hin
  · exact h.cleared other (hclearing ▸ List.mem_cons_of_mem _ hother)

theorem clearing_deactivate (manager : LocalLeaseManager) (id : Nat) :
    (manager.deactivate id).clearing = manager.clearing := by
  unfold deactivate
  split <;> rfl

theorem Sound.step (h : manager.Sound) {handling : Handling}
    (hstep : manager.step handling = some next) : next.Sound := by
  cases handling with
  | attach object objectType location now =>
    cases hstep
    exact h.attach object objectType location now
  | clone id =>
    simp only [LocalLeaseManager.step] at hstep
    split at hstep
    next hstrong =>
      cases hstep
      exact h.modify id (fun _ => ⟨rfl, rfl, rfl⟩) (strongCount_of_any hstrong)
    · cases hstep
  | letGo id =>
    obtain ⟨-, hnext⟩ := Option.ite_none_right_eq_some.mp hstep
    cases hnext
    exact h.letGo id
  | destroy id =>
    simp only [LocalLeaseManager.step] at hstep
    split at hstep
    next hlast =>
      cases hstep
      exact h.destroy hlast.2
    · cases hstep
  | due now =>
    cases hstep
    exact h.due now
  | drain =>
    cases hstep
    exact h.drain
  | deactivate =>
    simp only [LocalLeaseManager.step] at hstep
    split at hstep
    · cases hstep
    next id rest hclearing =>
      cases hstep
      exact (h.deactivate id).pop ((clearing_deactivate manager id).trans hclearing)
        fun lease => inactive_deactivate manager id

/-! ## Without `clear` -/

/-- No lease with a reference is given back. -/
structure Kept (manager : LocalLeaseManager) : Prop where
  quiet : manager.clearing = []
  active : ∀ (id : Nat) (lease : LocalLease), manager.leases[id]? = some lease →
    lease.strong ≠ 0 → lease.active = true

theorem Kept.strongCount (h : manager.Kept) {id : Nat} {lease : LocalLease}
    (hlease : manager.leases[id]? = some lease) : manager.strongCount id = lease.strong := by
  rw [LocalLeaseManager.strongCount, hlease, h.quiet]
  rfl

theorem Kept.touch (h : manager.Kept) {after : LocalLeaseManager}
    (hquiet : after.clearing = manager.clearing) {change : Nat → LocalLease → LocalLease}
    (hget : ∀ id, after.leases[id]? = manager.leases[id]?.map (change id))
    (hkeeps : ∀ id lease, manager.leases[id]? = some lease → (change id lease).strong ≠ 0 →
      manager.strongCount id ≠ 0 ∧ (change id lease).active = lease.active) : after.Kept := by
  refine ⟨hquiet.trans h.quiet, fun id found hfound hstrong => ?_⟩
  rw [hget] at hfound
  obtain ⟨lease, hlease, rfl⟩ := Option.map_eq_some_iff.mp hfound
  obtain ⟨hcount, hactive⟩ := hkeeps id lease hlease hstrong
  rw [h.strongCount hlease] at hcount
  rw [hactive, h.active id lease hlease hcount]

/-- The references to one lease change, to a lease that has one. -/
theorem Kept.modify (h : manager.Kept) {id : Nat} {change : LocalLease → LocalLease}
    (hactive : ∀ lease, (change lease).active = lease.active)
    (hstrong : manager.strongCount id ≠ 0) :
    Kept { manager with leases := manager.leases.modify id change } := by
  refine h.touch rfl (getElem?_borrow manager.leases id · change) fun other lease hlease => ?_
  split
  next hsame => exact fun _ => ⟨hsame ▸ hstrong, hactive lease⟩
  · exact fun hsome => ⟨h.strongCount hlease ▸ hsome, rfl⟩

theorem Kept.letGo (h : manager.Kept) (id : Nat) : (manager.letGo id).Kept := by
  refine h.touch rfl (getElem?_borrow manager.leases id · _) fun other lease hlease => ?_
  rw [h.strongCount hlease]
  split
  · exact fun hsome => ⟨fun hzero => hsome (Nat.sub_eq_zero_of_le (by omega)), rfl⟩
  · exact fun hsome => ⟨hsome, rfl⟩

theorem Kept.destroy (h : manager.Kept) {id : Nat} (hlast : manager.strongCount id = 0) :
    (manager.destroy id).Kept := by
  refine ⟨(clearing_deactivate manager id).trans h.quiet, fun other found hfound hstrong => ?_⟩
  unfold LocalLeaseManager.destroy at hfound
  dsimp only at hfound
  rw [getElem?_borrow] at hfound
  obtain ⟨between, hbetween, rfl⟩ := Option.map_eq_some_iff.mp hfound
  by_cases hsame : id = other
  · subst hsame
    rw [if_pos rfl] at hstrong
    have hzero := strongCount_deactivate manager id id
    rw [hlast, LocalLeaseManager.strongCount, hbetween, Option.elim_some] at hzero
    exact absurd (Nat.eq_zero_of_add_eq_zero_right hzero) hstrong
  · rw [if_neg hsame] at hstrong ⊢
    unfold LocalLeaseManager.deactivate at hbetween
    split at hbetween
    · dsimp only at hbetween
      rw [getElem?_borrow, if_neg hsame] at hbetween
      obtain ⟨lease, hlease, rfl⟩ := Option.map_eq_some_iff.mp hbetween
      exact h.active other lease hlease hstrong
    · exact h.active other between hbetween hstrong

theorem Kept.step (h : manager.Kept) {handling : Handling} (hother : handling ≠ .drain)
    (hstep : manager.step handling = some next) : next.Kept := by
  cases handling with
  | attach object objectType location now =>
    cases hstep
    unfold LocalLeaseManager.attach
    split
    next id hfound =>
      rw [Option.filter_eq_some_iff] at hfound
      exact h.modify (fun _ => rfl) (bne_iff_ne.mp hfound.2)
    · dsimp only
      split
      · exact ⟨h.quiet, h.active⟩
      · refine ⟨h.quiet, fun id found hfound hstrong => ?_⟩
        rcases getElem?_push hfound with hfound | ⟨-, rfl⟩
        · exact h.active id found hfound hstrong
        · rfl
  | clone id =>
    simp only [LocalLeaseManager.step] at hstep
    split at hstep
    next hstrong =>
      cases hstep
      exact h.modify (fun _ => rfl) (strongCount_of_any hstrong)
    · cases hstep
  | letGo id =>
    obtain ⟨-, hnext⟩ := Option.ite_none_right_eq_some.mp hstep
    cases hnext
    exact h.letGo id
  | destroy id =>
    simp only [LocalLeaseManager.step] at hstep
    split at hstep
    next hlast =>
      cases hstep
      exact h.destroy hlast.2
    · cases hstep
  | due now =>
    cases hstep
    refine h.touch rfl (fun id => List.getElem?_mapIdx) fun id lease hlease => ?_
    split
    next hdue =>
      obtain ⟨object, hname⟩ := mem_values_iff.mp (List.mem_filter.mp hdue).1
      exact fun _ => ⟨(lookup_of_sweep hname).2, rfl⟩
    · exact fun hsome => ⟨h.strongCount hlease ▸ hsome, rfl⟩
  | drain => exact absurd rfl hother
  | deactivate =>
    simp only [LocalLeaseManager.step, h.quiet] at hstep
    cases hstep

/-! ## Every run -/

theorem step_limit {handling : Handling} (hstep : manager.step handling = some next) :
    next.limit = manager.limit := by
  have hoff : ∀ id, (manager.deactivate id).limit = manager.limit := by
    intro id
    unfold deactivate
    split <;> rfl
  cases handling with
  | attach object objectType location now =>
    cases hstep
    unfold LocalLeaseManager.attach
    split
    · rfl
    · dsimp only
      split <;> rfl
  | due now =>
    cases hstep
    rfl
  | drain =>
    cases hstep
    rfl
  | clone id =>
    obtain ⟨-, hnext⟩ := Option.ite_none_right_eq_some.mp hstep
    cases hnext
    rfl
  | letGo id =>
    obtain ⟨-, hnext⟩ := Option.ite_none_right_eq_some.mp hstep
    cases hnext
    rfl
  | destroy id =>
    obtain ⟨-, hnext⟩ := Option.ite_none_right_eq_some.mp hstep
    cases hnext
    exact hoff id
  | deactivate =>
    simp only [step] at hstep
    split at hstep
    · cases hstep
    · cases hstep
      exact hoff _

/-- The lease is active, has a reference, and `clear` has not come to it. -/
def Held (manager : LocalLeaseManager) (id : Nat) (lease : LocalLease) : Prop :=
  manager.leases[id]? = some lease ∧ lease.active = true ∧ manager.strongCount id ≠ 0 ∧
    id ∉ manager.clearing

/-- The leases that are held are listed with different objects, so there is room for them. -/
theorem Sound.held_le (h : manager.Sound) {ids : List Nat} (hnodup : ids.Nodup)
    (hheld : ∀ id ∈ ids, ∃ lease, manager.Held id lease) : ids.length ≤ manager.limit := by
  have hsubset : ids ⊆ values manager.entries := by
    intro id hid
    obtain ⟨lease, hlease, hactive, hstrong, hnot⟩ := hheld id hid
    exact mem_values_of_lookup (h.listed id lease hlease hstrong hactive hnot)
  have hle := (List.subperm_of_subset hnodup hsubset).length_le
  rw [values, List.length_map] at hle
  exact hle.trans h.room

/-- In every interleaving of what threads do with handles: a lease is given back once at most, and
    it has been when its destructor has run; without `clear` it is not given back while it has a
    handle; of the leases that are held there is one for each object, no more than the limit, and
    `due` misses none. -/
theorem leases_released_once {limit renewInterval : Nat} {handlings : List Handling}
    (hrun : exec step (new limit renewInterval) handlings = some final) :
    final.released.Nodup ∧
      (∀ id lease, final.leases[id]? = some lease → lease.dropped = true → id ∈ final.released) ∧
      (.drain ∉ handlings → ∀ id lease, final.leases[id]? = some lease → lease.strong ≠ 0 →
        id ∉ final.released) ∧
      (∀ id other lease twin, final.Held id lease → final.Held other twin →
        lease.object = twin.object → id = other) ∧
      (∀ ids : List Nat, ids.Nodup → (∀ id ∈ ids, ∃ lease, final.Held id lease) →
        ids.length ≤ limit) ∧
      ∀ id lease now, final.Held id lease → lease.nextRenewal ≤ now →
        id ∈ (final.due now).1 := by
  have hsound : final.Sound := exec_invariant_all Sound (fun _ _ _ h hstep => h.step hstep)
    (sound_new limit renewInterval) hrun
  have hlimit : final.limit = limit := exec_invariant_all (fun manager => manager.limit = limit)
    (fun _ _ _ h hstep => (step_limit hstep).trans h) rfl hrun
  refine ⟨hsound.once, fun id lease hlease hdropped => ?_, fun hnone id lease hlease hstrong => ?_,
    ?_, ?_, ?_⟩
  · exact (hsound.released id).mpr ⟨lease, hlease, (hsound.dropped id lease hlease hdropped).1⟩
  · have hstart : (new limit renewInterval).Kept := ⟨rfl, fun _ _ hlease => nomatch hlease⟩
    have hothers : ∀ handling ∈ handlings, handling ≠ .drain :=
      fun handling hmem heq => hnone (heq ▸ hmem)
    have hkept : final.Kept := exec_invariant Kept (fun _ _ _ h hother hstep => h.step hother hstep)
      hstart (along_of_forall hothers step _) hrun
    intro hreleased
    obtain ⟨found, hfound, hinactive⟩ := (hsound.released id).mp hreleased
    rw [hlease] at hfound
    cases hfound
    cases hinactive.symm.trans (hkept.active id lease hlease hstrong)
  · rintro id other lease twin ⟨hlease, hactive, hstrong, hnot⟩ ⟨htwin, hon, hcount, hout⟩ hsame
    have hfirst := hsound.listed id lease hlease hstrong hactive hnot
    rw [hsame, hsound.listed other twin htwin hcount hon hout] at hfirst
    exact (Option.some.inj hfirst).symm
  · exact fun ids hnodup hheld => hlimit ▸ hsound.held_le hnodup hheld
  · rintro id lease now ⟨hlease, hactive, hstrong, hnot⟩ hnow
    refine List.mem_filter.mpr ⟨mem_values_of_lookup (hsound.sweep.listed id lease hlease hstrong
      hactive hnot), ?_⟩
    have hleased : final.sweep.leases[id]? = some lease := hlease
    simp [isDue, hlease, hactive, hnow]

/-! ## Two handles of one object -/

def sampleObject : ObjectId := ⟨⟨1, u128_one⟩, 2, u128_two⟩

/-- Two handles share a lease, and it is given back when both are gone. -/
def sharedHandlings : List Handling :=
  [.attach sampleObject ⟨3, u128_three⟩ ⟨⟨0⟩, ⟨0⟩, 1, 1, 1, ObjectLocation.valid_first⟩ 0,
    .attach sampleObject ⟨3, u128_three⟩ ⟨⟨0⟩, ⟨0⟩, 1, 1, 1, ObjectLocation.valid_first⟩ 4,
    .letGo 0, .due 10, .letGo 0, .letGo 0, .destroy 0]

theorem shared_released :
    ∃ final, exec step (new 1 10) sharedHandlings = some final ∧ final.leases.length = 1 ∧
      0 ∈ final.released ∧ final.released.Nodup := by
  obtain ⟨hnodup, hdropped, -⟩ := leases_released_once
    (show exec step (new 1 10) sharedHandlings = some _ from rfl)
  exact ⟨_, rfl, rfl, hdropped 0 _ rfl rfl, hnodup⟩

end LocalLeaseManager

end Hataori.Object
