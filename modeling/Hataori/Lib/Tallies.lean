import Hataori.Lib.Maps
import Mathlib.Algebra.BigOperators.Group.Finset.Basic

/-!
# The total of a map, key by key

A measure of the values, summed over a map, as a sum over keys. A key that is not
in the map has no share in it, so the keys may be those of several maps at once. What
follows is how the total changes when the maps differ at one key only.
-/

namespace Lib.Maps

universe u v

variable {κ : Type u} {ν : Type v} [DecidableEq κ] {f : ν → Nat} {m m' : Map κ ν} {k : κ}

/-- What the value at a key contributes to the total. -/
def share (f : ν → Nat) (m : Map κ ν) (k : κ) : Nat := (m.lookup k).elim 0 f

theorem share_some {v : ν} (h : m.lookup k = some v) : share f m k = f v := by
  rw [share, h, Option.elim_some]

theorem share_none (h : m.lookup k = none) : share f m k = 0 := by
  rw [share, h, Option.elim_none]

theorem total_keys (f : ν → Nat) (m : Map κ ν) : total f m = (m.entries.keys.map (share f m)).sum := by
  rw [total, values, List.keys, List.map_map, List.map_map]
  refine congrArg List.sum (List.map_congr_left fun entry hentry => ?_)
  exact (share_some (List.mem_dlookup m.nodupKeys hentry)).symm

/-- Keys that are not in the map add nothing. -/
theorem total_eq_sum (f : ν → Nat) (m : Map κ ν) {keys : Finset κ}
    (h : m.entries.keys.toFinset ⊆ keys) : total f m = ∑ k ∈ keys, share f m k := by
  rw [total_keys, ← List.sum_toFinset _ m.nodupKeys]
  refine Finset.sum_subset h fun k _ hgone => ?_
  rw [List.mem_toFinset] at hgone
  exact share_none (AList.lookup_eq_none.mpr hgone)

/-- A change at one key changes the total by the share of that key. -/
theorem total_of_others (h : ∀ other, other ≠ k → m'.lookup other = m.lookup other) :
    total f m' + share f m k = total f m + share f m' k := by
  obtain ⟨keys, hmem, hafter, hbefore⟩ : ∃ keys : Finset κ, k ∈ keys ∧
      m'.entries.keys.toFinset ⊆ keys ∧ m.entries.keys.toFinset ⊆ keys :=
    ⟨{k} ∪ (m'.entries.keys.toFinset ∪ m.entries.keys.toFinset),
      Finset.mem_union_left _ (Finset.mem_singleton_self k),
      Finset.subset_union_left.trans Finset.subset_union_right,
      Finset.subset_union_right.trans Finset.subset_union_right⟩
  have hrest : ∑ other ∈ keys.erase k, share f m' other =
      ∑ other ∈ keys.erase k, share f m other := by
    refine Finset.sum_congr rfl fun other hother => ?_
    rw [share, share, h other (Finset.ne_of_mem_erase hother)]
  rw [total_eq_sum f m' hafter, total_eq_sum f m hbefore, ← Finset.add_sum_erase keys _ hmem,
    ← Finset.add_sum_erase keys _ hmem, hrest]
  omega

/-- The sum over some keys, once each, when the value of one of them changes. -/
theorem sum_map_update {keys : List κ} {k : κ} (hnodup : keys.Nodup) (hmem : k ∈ keys)
    (g : κ → Nat) (value : Nat) :
    (keys.map (Function.update g k value)).sum + g k = (keys.map g).sum + value := by
  rw [← List.sum_toFinset _ hnodup, ← List.sum_toFinset _ hnodup,
    ← Finset.add_sum_erase keys.toFinset _ (List.mem_toFinset.mpr hmem),
    ← Finset.add_sum_erase keys.toFinset g (List.mem_toFinset.mpr hmem), Function.update_self]
  have hrest : ∑ other ∈ keys.toFinset.erase k, Function.update g k value other =
      ∑ other ∈ keys.toFinset.erase k, g other :=
    Finset.sum_congr rfl fun other hother =>
      Function.update_of_ne (Finset.ne_of_mem_erase hother) _ _
  rw [hrest]
  omega

end Lib.Maps
