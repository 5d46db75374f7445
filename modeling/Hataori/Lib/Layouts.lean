import Hataori.Lib.Bytes

/-!
# Headers in parts

A header as the parts that lie in it one behind the other: what a reader finds at the offset of a
part, and a header cut at the widths of its parts.
-/

namespace Lib.Layouts

open Lib.Bytes

variable {parts : List (List UInt8)} {part bytes : List UInt8} {index start width value : Nat}
  {widths : List Nat}

/-- Where a part begins. -/
def offset (parts : List (List UInt8)) (index : Nat) : Nat :=
  ((parts.take index).map List.length).sum

/-- Parts of known lengths begin where the lengths say. -/
theorem offset_eq {lengths : List Nat} (h : parts.map List.length = lengths) (index : Nat) :
    offset parts index = (lengths.take index).sum := by
  rw [offset, List.map_take, h]

/-- At the offset of a part its reader finds it. -/
theorem slice_part (hpart : parts[index]? = some part) (hstart : offset parts index = start)
    (hwidth : part.length = width) : slice parts.flatten start width = part := by
  induction parts generalizing index start with
  | nil => simp at hpart
  | cons first parts ih =>
    rw [List.flatten_cons]
    cases index with
    | zero =>
      rw [List.getElem?_cons_zero, Option.some.injEq] at hpart
      subst hpart hstart
      exact slice_front hwidth
    | succ index =>
      rw [List.getElem?_cons_succ] at hpart
      have hsum : start = first.length + offset parts index := by
        rw [← hstart, offset, List.take_succ_cons, List.map_cons, List.sum_cons, offset]
      rw [slice_skip rfl (by omega), hsum, Nat.add_sub_cancel_left]
      exact ih hpart rfl

/-- The same of a byte. -/
theorem getD_part {byte : UInt8} (hpart : parts[index]? = some [byte])
    (hstart : offset parts index = start) : parts.flatten.getD start 0 = byte := by
  have hslice := slice_part hpart hstart rfl
  rw [List.length_singleton, slice] at hslice
  have hhead : (parts.flatten.drop start)[0]? = some byte := by
    rw [← List.getElem?_take_of_lt Nat.zero_lt_one, hslice]
    rfl
  rw [List.getElem?_drop, Nat.add_zero] at hhead
  rw [List.getD_eq_getElem?_getD, hhead, Option.getD_some]

/-- The same of a number. -/
theorem field_part (hpart : parts[index]? = some (toLe width value))
    (hstart : offset parts index = start) (hvalue : value < 256 ^ width) :
    field parts.flatten start width = value := by
  rw [field, slice_part hpart hstart (length_toLe _ _), ofLe_toLe hvalue]

/-- The parts of these widths, from an offset on. -/
def cuts (bytes : List UInt8) : Nat → List Nat → List (List UInt8)
  | _, [] => []
  | start, width :: widths => slice bytes start width :: cuts bytes (start + width) widths

/-- What is cut is put together again. -/
theorem flatten_cuts (bytes : List UInt8) (start : Nat) (widths : List Nat) :
    (cuts bytes start widths).flatten = slice bytes start widths.sum := by
  induction widths generalizing start with
  | nil => simp [cuts, slice]
  | cons width widths ih =>
    rw [cuts, List.flatten_cons, ih, List.sum_cons]
    unfold slice
    rw [List.take_add, List.drop_drop]

theorem flatten_whole (h : widths.sum = bytes.length) : (cuts bytes 0 widths).flatten = bytes := by
  rw [flatten_cuts, h, slice_whole rfl]

theorem toLe_field (h : start + width ≤ bytes.length) :
    toLe width (field bytes start width) = slice bytes start width := by
  have hsame := toLe_ofLe (slice bytes start width)
  rwa [length_slice h] at hsame

theorem field_lt (h : start + width ≤ bytes.length) : field bytes start width < 256 ^ width := by
  have hlt := ofLe_lt (slice bytes start width)
  rwa [length_slice h] at hlt

theorem slice_one (h : index < bytes.length) : slice bytes index 1 = [bytes.getD index 0] := by
  rw [slice, List.drop_eq_getElem_cons h, List.take_succ_cons, List.take_zero,
    List.getD_eq_getElem?_getD, List.getElem?_eq_getElem h, Option.getD_some]

end Lib.Layouts
