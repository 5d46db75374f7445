import Hataori.Lib.Maps

/-!
# A cache that forgets its oldest key

A finite map with a queue of its keys. A new key goes to the back of the queue, and when the
map is full the key in front is forgotten. The cache is exact when the queue holds the keys of
the map, in the order they came in. Taking a key out of the map alone breaks this, so it may
be done only to a key that is not there.
-/

namespace Lib.FifoCache

open Lib.Maps

universe u v

/-- A map and the queue of its keys. -/
structure Cache (κ : Type u) (ν : Type v) [DecidableEq κ] where
  map : Map κ ν
  queue : List κ

variable {κ : Type u} {ν : Type v} [DecidableEq κ]

namespace Cache

/-- The number of keys. -/
def size (cache : Cache κ ν) : Nat := cache.map.entries.length

/-- A value for a key: a new key takes the place of the oldest if the cache is full. -/
def put (capacity : Nat) (cache : Cache κ ν) (k : κ) (v : ν) : Cache κ ν :=
  if (cache.map.lookup k).isSome then { cache with map := cache.map.insert k v }
  else match cache.queue with
    | oldest :: rest =>
      if capacity ≤ cache.size then ⟨(cache.map.erase oldest).insert k v, rest ++ [k]⟩
      else ⟨cache.map.insert k v, cache.queue ++ [k]⟩
    | [] => ⟨cache.map.insert k v, [k]⟩

/-- The key leaves the map, but not the queue. -/
def drop (cache : Cache κ ν) (k : κ) : Cache κ ν := { cache with map := cache.map.erase k }

/-- The key that came in, if a value for it is a new key. -/
def arrival (cache : Cache κ ν) (k : κ) : List κ :=
  if (cache.map.lookup k).isSome then [] else [k]

/-- The map is within its capacity, and the queue holds its keys, each once, as the last of
    those that came in. -/
structure Exact (capacity : Nat) (arrived : List κ) (cache : Cache κ ν) : Prop where
  size : cache.size ≤ capacity
  nodup : cache.queue.Nodup
  mem : ∀ k, k ∈ cache.queue ↔ (cache.map.lookup k).isSome = true
  suffix : cache.queue <:+ arrived

variable {capacity : Nat} {arrived : List κ} {cache : Cache κ ν} {k : κ} {v : ν}

theorem exact_empty (capacity : Nat) (arrived : List κ) :
    Exact capacity arrived (⟨∅, []⟩ : Cache κ ν) := by
  refine ⟨Nat.zero_le _, List.nodup_nil, fun k => ?_, List.nil_suffix⟩
  simp

theorem lookup_insert_isSome {m : Map κ ν} (k other : κ) (v : ν) :
    ((m.insert k v).lookup other).isSome = true ↔ other = k ∨ (m.lookup other).isSome = true := by
  by_cases heq : other = k
  · rw [heq, AList.lookup_insert]
    simp
  · rw [AList.lookup_insert_ne heq]
    simp [heq]

theorem lookup_erase_isSome {m : Map κ ν} (k other : κ) :
    ((m.erase k).lookup other).isSome = true ↔ other ≠ k ∧ (m.lookup other).isSome = true := by
  by_cases heq : other = k
  · rw [heq, AList.lookup_erase]
    simp
  · rw [AList.lookup_erase_ne heq]
    simp [heq]

theorem size_insert_new {m : Map κ ν} (h : (m.lookup k).isSome ≠ true) (v : ν) :
    (m.insert k v).entries.length = m.entries.length + 1 := by
  rw [AList.insert_of_notMem (AList.lookup_eq_none.mp (Option.not_isSome_iff_eq_none.mp h))]
  rfl

theorem size_insert_old {m : Map κ ν} (h : (m.lookup k).isSome = true) (v : ν) :
    (m.insert k v).entries.length = m.entries.length := by
  obtain ⟨old, hold⟩ := Option.isSome_iff_exists.mp h
  rw [(entries_perm_erase hold).length_eq]
  rfl

theorem size_erase {m : Map κ ν} (h : (m.lookup k).isSome = true) :
    (m.erase k).entries.length + 1 = m.entries.length := by
  obtain ⟨old, hold⟩ := Option.isSome_iff_exists.mp h
  rw [(entries_perm_erase hold).length_eq]
  rfl

theorem put_old (h : (cache.map.lookup k).isSome = true) (v : ν) :
    cache.put capacity k v = { cache with map := cache.map.insert k v } := by
  rw [put, if_pos h]

theorem put_room (h : (cache.map.lookup k).isSome ≠ true) (hroom : cache.size < capacity) (v : ν) :
    cache.put capacity k v = ⟨cache.map.insert k v, cache.queue ++ [k]⟩ := by
  rw [put, if_neg h]
  cases hqueue : cache.queue with
  | nil => rfl
  | cons oldest rest => exact if_neg (Nat.not_le_of_lt hroom)

theorem put_full {oldest : κ} {rest : List κ} (h : (cache.map.lookup k).isSome ≠ true)
    (hqueue : cache.queue = oldest :: rest) (hfull : capacity ≤ cache.size) (v : ν) :
    cache.put capacity k v = ⟨(cache.map.erase oldest).insert k v, rest ++ [k]⟩ := by
  rw [put, if_neg h, hqueue]
  exact if_pos hfull

theorem lookup_put (capacity : Nat) (cache : Cache κ ν) (k : κ) (v : ν) :
    (cache.put capacity k v).map.lookup k = some v := by
  unfold put
  repeat' split
  all_goals exact AList.lookup_insert _

/-- A value for a known key changes neither the keys nor the queue. -/
theorem Exact.put_old (hexact : Exact capacity arrived cache)
    (h : (cache.map.lookup k).isSome = true) (v : ν) :
    Exact capacity arrived (cache.put capacity k v) := by
  rw [Cache.put_old h]
  refine ⟨?_, hexact.nodup, fun other => ?_, hexact.suffix⟩
  · exact Nat.le_trans (Nat.le_of_eq (size_insert_old h v)) hexact.size
  · rw [lookup_insert_isSome, hexact.mem]
    constructor
    · exact Or.inr
    · rintro (rfl | hother)
      · exact h
      · exact hother

/-- A new key goes to the back. -/
theorem Exact.put_room (hexact : Exact capacity arrived cache)
    (h : (cache.map.lookup k).isSome ≠ true) (hroom : cache.size < capacity) (v : ν) :
    Exact capacity (arrived ++ [k]) (cache.put capacity k v) := by
  rw [Cache.put_room h hroom]
  refine ⟨?_, ?_, fun other => ?_, ?_⟩
  · exact Nat.le_trans (Nat.le_of_eq (size_insert_new h v)) hroom
  · apply List.Nodup.append hexact.nodup (List.nodup_singleton k)
    rw [List.disjoint_singleton, hexact.mem]
    exact h
  · rw [lookup_insert_isSome, List.mem_append, List.mem_singleton, hexact.mem, or_comm]
  · exact List.suffix_append_self_iff.mpr hexact.suffix

/-- And if the cache is full, the key in front goes. -/
theorem Exact.put_full {oldest : κ} {rest : List κ} (hexact : Exact capacity arrived cache)
    (h : (cache.map.lookup k).isSome ≠ true) (hqueue : cache.queue = oldest :: rest)
    (hfull : capacity ≤ cache.size) (v : ν) :
    Exact capacity (arrived ++ [k]) (cache.put capacity k v) := by
  have hnodup := hexact.nodup
  have hmem := hexact.mem
  have hsuffix := hexact.suffix
  rw [hqueue] at hnodup hmem hsuffix
  have hheld : (cache.map.lookup oldest).isSome = true := (hmem oldest).mp List.mem_cons_self
  have hgone : oldest ∉ rest := (List.nodup_cons.mp hnodup).1
  have hnew : ((cache.map.erase oldest).lookup k).isSome ≠ true := by
    rw [ne_eq, lookup_erase_isSome]
    exact fun hk => h hk.2
  rw [Cache.put_full h hqueue hfull]
  refine ⟨?_, ?_, fun other => ?_, ?_⟩
  · have hsize := hexact.size
    have herased := size_erase hheld
    have hinserted := size_insert_new hnew v
    unfold Cache.size at hsize ⊢
    dsimp only
    omega
  · apply List.Nodup.append (List.nodup_cons.mp hnodup).2 (List.nodup_singleton k)
    rw [List.disjoint_singleton]
    exact fun hk => h ((hmem k).mp (List.mem_cons_of_mem oldest hk))
  · rw [lookup_insert_isSome, lookup_erase_isSome, ← hmem other, List.mem_append,
      List.mem_singleton, List.mem_cons, or_comm]
    apply or_congr_right
    constructor
    · intro hother
      exact ⟨fun heq => hgone (heq ▸ hother), Or.inr hother⟩
    · rintro ⟨hne, heq | hother⟩
      · exact absurd heq hne
      · exact hother
  · exact List.suffix_append_self_iff.mpr ((List.suffix_cons oldest rest).trans hsuffix)

/-- A full cache has an oldest key. -/
theorem Exact.oldest (hexact : Exact capacity arrived cache) (hpos : 0 < capacity)
    (hfull : capacity ≤ cache.size) : ∃ oldest rest, cache.queue = oldest :: rest := by
  cases hqueue : cache.queue with
  | cons oldest rest => exact ⟨oldest, rest, rfl⟩
  | nil =>
    have hsome : cache.map.entries ≠ [] := by
      intro hnil
      rw [Cache.size, hnil] at hfull
      exact absurd hfull (Nat.not_le_of_lt hpos)
    obtain ⟨entry, hentry⟩ := List.exists_mem_of_ne_nil _ hsome
    have hlook := List.mem_dlookup cache.map.nodupKeys hentry
    have hkey := (hexact.mem entry.1).mpr (Option.isSome_iff_exists.mpr ⟨entry.2, hlook⟩)
    rw [hqueue] at hkey
    cases hkey

/-- Every value keeps the cache exact. -/
theorem Exact.put (hexact : Exact capacity arrived cache) (hpos : 0 < capacity) (k : κ) (v : ν) :
    Exact capacity (arrived ++ cache.arrival k) (cache.put capacity k v) := by
  unfold arrival
  split
  · next hold =>
    rw [List.append_nil]
    exact hexact.put_old hold v
  · next hnew =>
    by_cases hroom : cache.size < capacity
    · exact hexact.put_room hnew hroom v
    · have hfull := Nat.le_of_not_lt hroom
      obtain ⟨oldest, rest, hqueue⟩ := hexact.oldest hpos hfull
      exact hexact.put_full hnew hqueue hfull v

/-- A new key in a full cache takes the place of the oldest. -/
theorem Exact.evicts (hexact : Exact capacity arrived cache) (hpos : 0 < capacity)
    (h : (cache.map.lookup k).isSome ≠ true) (hfull : capacity ≤ cache.size) (v : ν) :
    ∃ oldest rest, cache.queue = oldest :: rest ∧ (cache.map.lookup oldest).isSome = true ∧
      (cache.put capacity k v).queue = rest ++ [k] ∧
      ((cache.put capacity k v).map.lookup oldest).isSome ≠ true := by
  obtain ⟨oldest, rest, hqueue⟩ := hexact.oldest hpos hfull
  have hheld : (cache.map.lookup oldest).isSome = true := by
    rw [← hexact.mem, hqueue]
    exact List.mem_cons_self
  refine ⟨oldest, rest, hqueue, hheld, ?_, ?_⟩
  · rw [Cache.put_full h hqueue hfull]
  · rw [Cache.put_full h hqueue hfull, ne_eq, lookup_insert_isSome, lookup_erase_isSome]
    rintro (rfl | hboth)
    · exact h hheld
    · exact hboth.1 rfl

/-- The queue is as long as the map is large. -/
theorem Exact.queue_length (hexact : Exact capacity arrived cache) :
    cache.queue.length = cache.size := by
  have hperm : cache.queue.Perm cache.map.entries.keys := by
    refine (List.perm_ext_iff_of_nodup hexact.nodup cache.map.nodupKeys).mpr fun k => ?_
    rw [hexact.mem, ← List.dlookup_isSome]
    exact Iff.rfl
  rw [hperm.length_eq, List.keys, List.length_map]
  rfl

/-- A key may be dropped only if it is not there. -/
theorem Exact.drop_iff (hexact : Exact capacity arrived cache) (k : κ) :
    Exact capacity arrived (cache.drop k) ↔ cache.map.lookup k = none := by
  constructor
  · intro hafter
    by_contra hsome
    have hqueued := (hexact.mem k).mpr (Option.isSome_iff_ne_none.mpr hsome)
    have hlost := (hafter.mem k).mp hqueued
    rw [drop, AList.lookup_erase] at hlost
    cases hlost
  · intro hnone
    rw [drop, erase_of_lookup_none hnone]
    exact hexact

end Cache

end Lib.FifoCache
