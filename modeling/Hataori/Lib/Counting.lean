import Mathlib.Data.List.Basic
import Mathlib.Data.List.Nodup
import Mathlib.Data.List.Range

/-!
# Lists that count up

A list that starts with a given element and whose elements carry numbers, each one more than the
number of the element before it. No number is there twice, and the last is the largest.
-/

namespace Lib.Counting

universe u

variable {α : Type u} {number : α → Nat} {first : α} {rest : List α}

/-- The numbers go up by one from each element to the next. -/
def CountsUp (number : α → Nat) (first : α) (rest : List α) : Prop :=
  (first :: rest).map number = List.range' (number first) (rest.length + 1)

theorem countsUp_nil (number : α → Nat) (first : α) : CountsUp number first [] := rfl

theorem CountsUp.last (h : CountsUp number first rest) :
    number (rest.getLastD first) = number first + rest.length := by
  have hlast := congrArg (fun numbers => numbers.getLast?) h
  simp only [List.getLast?_map, List.getLast?_cons] at hlast
  rw [List.range'_1_concat, List.getLast?_concat] at hlast
  rw [List.getLastD_eq_getLast?]
  exact Option.some.inj hlast

/-- The next element carries the next number. -/
theorem CountsUp.append (h : CountsUp number first rest) {next : α}
    (hnext : number next = number (rest.getLastD first) + 1) :
    CountsUp number first (rest ++ [next]) := by
  unfold CountsUp at h ⊢
  have hlast : number next = number first + (rest.length + 1) := by
    rw [hnext, CountsUp.last h, Nat.add_assoc]
  rw [← List.cons_append, List.map_append, h, List.length_append, List.map_singleton, hlast,
    ← List.range'_1_concat]
  rfl

/-- An element is known by its number. -/
theorem CountsUp.unique (h : CountsUp number first rest) {x y : α} (hx : x ∈ first :: rest)
    (hy : y ∈ first :: rest) (hsame : number x = number y) : x = y := by
  have hnodup : ((first :: rest).map number).Nodup := by
    rw [h]
    exact List.nodup_range'
  exact List.inj_on_of_nodup_map hnodup hx hy hsame

theorem CountsUp.le_last (h : CountsUp number first rest) {x : α} (hx : x ∈ first :: rest) :
    number x ≤ number (rest.getLastD first) := by
  have hmem : number x ∈ List.range' (number first) (rest.length + 1) := by
    rw [← h]
    exact List.mem_map_of_mem hx
  rw [List.mem_range'_1] at hmem
  rw [h.last]
  omega

/-- An element whose number is as large as the last one is the last one. -/
theorem CountsUp.eq_last (h : CountsUp number first rest) {x : α} (hx : x ∈ first :: rest)
    (hlate : number (rest.getLastD first) ≤ number x) : x = rest.getLastD first :=
  h.unique hx List.getLastD_mem_cons (le_antisymm (h.le_last hx) hlate)

end Lib.Counting
