import Mathlib.Algebra.GroupWithZero.Nat
import Mathlib.Data.List.AList

/-!
# Association lists as finite maps

Mathlib's `AList` with a constant value family is the finite map used for every
keyed table. What is added here is how a sum over the entries changes when one
key is updated, which is what counting arguments over such a table need.
-/

namespace Lib.Maps

universe u v

variable {κ : Type u} {ν : Type v} [DecidableEq κ]

/-- A finite map from `κ` to `ν`. -/
abbrev Map (κ : Type u) (ν : Type v) := AList (fun _ : κ => ν)

/-- The values of a map, in entry order. -/
def values (m : Map κ ν) : List ν := m.entries.map fun entry => entry.2

theorem entries_perm_erase {m : Map κ ν} {k : κ} {v : ν} (h : m.lookup k = some v) :
    m.entries.Perm (⟨k, v⟩ :: (m.erase k).entries) := by
  have hmem : k ∈ m.entries.keys := by
    rw [← List.dlookup_isSome]
    exact Option.isSome_iff_exists.mpr ⟨v, h⟩
  obtain ⟨w, front, back, hfront, hentries, herase⟩ := List.exists_of_kerase hmem
  have hw : w = v := by
    have hlook : m.entries.dlookup k = some w :=
      List.mem_dlookup m.nodupKeys (by rw [hentries]; simp)
    exact Option.some.inj (hlook.symm.trans h)
  subst hw
  change m.entries.Perm (⟨k, w⟩ :: m.entries.kerase k)
  rw [herase, hentries]
  exact List.perm_middle

theorem values_perm_erase {m : Map κ ν} {k : κ} {v : ν} (h : m.lookup k = some v) :
    (values m).Perm (v :: values (m.erase k)) :=
  (entries_perm_erase h).map (fun entry : Σ _ : κ, ν => entry.2)

theorem values_insert (m : Map κ ν) (k : κ) (v : ν) :
    values (m.insert k v) = v :: values (m.erase k) := rfl

theorem mem_values_iff {m : Map κ ν} {v : ν} :
    v ∈ values m ↔ ∃ k, m.lookup k = some v := by
  constructor
  · intro h
    obtain ⟨⟨k, w⟩, hmem, rfl⟩ := List.mem_map.mp h
    exact ⟨k, List.mem_dlookup m.nodupKeys hmem⟩
  · rintro ⟨k, h⟩
    exact List.mem_map.mpr ⟨⟨k, v⟩, List.of_mem_dlookup h, rfl⟩

theorem mem_values_of_lookup {m : Map κ ν} {k : κ} {v : ν} (h : m.lookup k = some v) :
    v ∈ values m :=
  mem_values_iff.mpr ⟨k, h⟩

theorem mem_values_insert {m : Map κ ν} {k : κ} {v w : ν} (h : w ∈ values (m.insert k v)) :
    w = v ∨ w ∈ values m := by
  rcases List.mem_cons.mp h with rfl | hrest
  · exact Or.inl rfl
  · obtain ⟨entry, hmem, rfl⟩ := List.mem_map.mp hrest
    exact Or.inr (List.mem_map.mpr ⟨entry, (List.kerase_sublist k m.entries).subset hmem, rfl⟩)

/-- Replacing one value trades what it contributed for what the new one does. -/
theorem count_flatMap_insert {β : Type*} [DecidableEq β] (f : ν → List β) {m : Map κ ν} {k : κ}
    {old : ν} (new : ν) (h : m.lookup k = some old) (b : β) :
    ((values (m.insert k new)).flatMap f).count b + (f old).count b =
      ((values m).flatMap f).count b + (f new).count b := by
  have hperm : ((values m).flatMap f).Perm (f old ++ (values (m.erase k)).flatMap f) :=
    (values_perm_erase h).flatMap_right f
  rw [hperm.count_eq, values_insert, List.flatMap_cons, List.count_append, List.count_append]
  omega

theorem keys_insert_new {m : Map κ ν} {k : κ} (v : ν) (h : k ∉ m) :
    (m.insert k v).keys = k :: m.keys := by
  rw [AList.keys_insert, List.erase_of_not_mem h]

section Retain

/-- The entries whose key and value satisfy the test (`HashMap::retain`). -/
def retain (p : κ → ν → Bool) (m : Map κ ν) : Map κ ν :=
  ⟨m.entries.filter fun entry => p entry.1 entry.2,
    List.NodupKeys.sublist List.filter_sublist m.nodupKeys⟩

/-- Every value replaced (`HashMap::values_mut`). -/
def mapValues (f : κ → ν → ν) (m : Map κ ν) : Map κ ν :=
  ⟨m.entries.map fun entry => ⟨entry.1, f entry.1 entry.2⟩, by
    have hkeys : (m.entries.map fun entry => (⟨entry.1, f entry.1 entry.2⟩ : Σ _ : κ, ν)).keys =
        m.entries.keys := by
      simp [List.keys, Function.comp_def]
    rw [List.NodupKeys, hkeys]
    exact m.nodupKeys⟩

theorem lookup_retain (p : κ → ν → Bool) (m : Map κ ν) (k : κ) :
    (retain p m).lookup k = (m.lookup k).filter (p k) := by
  apply Option.ext
  intro v
  simp only [Option.filter_eq_some_iff]
  constructor
  · intro h
    obtain ⟨hmem, hp⟩ := List.mem_filter.mp (List.of_mem_dlookup h)
    exact ⟨List.mem_dlookup m.nodupKeys hmem, hp⟩
  · rintro ⟨h, hp⟩
    exact List.mem_dlookup (retain p m).nodupKeys
      (List.mem_filter.mpr ⟨List.of_mem_dlookup h, hp⟩)

theorem lookup_mapValues (f : κ → ν → ν) (m : Map κ ν) (k : κ) :
    (mapValues f m).lookup k = (m.lookup k).map (f k) := by
  apply Option.ext
  intro v
  simp only [Option.map_eq_some_iff]
  constructor
  · intro h
    obtain ⟨⟨k', w⟩, hmem, heq⟩ := List.mem_map.mp (List.of_mem_dlookup h)
    cases heq
    exact ⟨w, List.mem_dlookup m.nodupKeys hmem, rfl⟩
  · rintro ⟨w, h, rfl⟩
    exact List.mem_dlookup (mapValues f m).nodupKeys
      (List.mem_map.mpr ⟨⟨k, w⟩, List.of_mem_dlookup h, rfl⟩)

end Retain

section Totals

variable (f : ν → Nat)

/-- A measure of the values, summed over the map. -/
def total (m : Map κ ν) : Nat := ((values m).map f).sum

variable {f} {m : Map κ ν} {k : κ} {v old : ν}

theorem total_erase (h : m.lookup k = some v) : total f m = f v + total f (m.erase k) := by
  rw [total, ((values_perm_erase h).map f).sum_nat, List.map_cons, List.sum_cons, total]

theorem le_total (h : m.lookup k = some v) : f v ≤ total f m := by
  rw [total_erase h]
  exact Nat.le_add_right _ _

theorem erase_of_lookup_none (h : m.lookup k = none) : m.erase k = m := by
  have hkeys : k ∉ m.entries.keys := AList.lookup_eq_none.mp h
  exact AList.ext (List.kerase_of_notMem_keys hkeys)

theorem total_insert_none (h : m.lookup k = none) :
    total f (m.insert k v) = total f m + f v := by
  rw [total, values_insert, List.map_cons, List.sum_cons, erase_of_lookup_none h, total]
  exact Nat.add_comm _ _

theorem total_insert_some (h : m.lookup k = some old) :
    total f (m.insert k v) + f old = total f m + f v := by
  rw [total_erase h, total, values_insert, List.map_cons, List.sum_cons, total]
  omega

omit [DecidableEq κ] in
/-- What stays and what goes make up the whole. -/
theorem total_retain (p : ν → Bool) (m : Map κ ν) :
    total f (retain (fun _ value => p value) m) +
      (((values m).filter fun value => !p value).map f).sum = total f m := by
  have hparts : ∀ entries : List (Σ _ : κ, ν),
      (((entries.filter fun entry => p entry.2).map fun entry => entry.2).map f).sum +
        (((entries.map fun entry => entry.2).filter fun value => !p value).map f).sum =
          ((entries.map fun entry => entry.2).map f).sum := by
    intro entries
    induction entries with
    | nil => rfl
    | cons entry rest ih =>
      cases hp : p entry.2 <;> simp [hp] at ih ⊢ <;> omega
  exact hparts m.entries

end Totals

section Tables

variable {β : Type*}

/-- The entries of a table over a list of keys, one key's entry in front. -/
theorem flatMap_perm_erase {keys : List κ} {k : κ} (hmem : k ∈ keys) (f : κ → List β) :
    (keys.flatMap f).Perm (f k ++ (keys.erase k).flatMap f) :=
  (List.perm_cons_erase hmem).flatMap_right f

/-- Replacing one key's entry trades it for the new one. -/
theorem flatMap_perm_of_entry {keys : List κ} (hnodup : keys.Nodup) {k : κ} (hmem : k ∈ keys)
    {f g : κ → List β} (hothers : ∀ other, other ≠ k → g other = f other) {extra : List β}
    (hentry : (f k).Perm (extra ++ g k)) : (keys.flatMap f).Perm (extra ++ keys.flatMap g) := by
  have hrest : (keys.erase k).flatMap g = (keys.erase k).flatMap f := by
    apply List.flatMap_congr
    intro other hother
    exact hothers other fun heq => (hnodup.not_mem_erase) (heq ▸ hother)
  refine (flatMap_perm_erase hmem f).trans ?_
  refine (hentry.append_right _).trans ?_
  rw [List.append_assoc, ← hrest]
  exact ((flatMap_perm_erase hmem g).symm).append_left extra

end Tables

end Lib.Maps
