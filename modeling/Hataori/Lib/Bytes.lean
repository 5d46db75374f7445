import Mathlib.Data.BitVec

/-!
# Bytes of fixed-width fields

Little-endian encodings of natural numbers, the fields of a header that lies at fixed
offsets, and the bytes of a text.
-/

namespace Lib.Bytes

/-- `to_le_bytes` of a number of `width` bytes. -/
def toLe : Nat → Nat → List UInt8
  | 0, _ => []
  | width + 1, n => UInt8.ofNat (n % 256) :: toLe width (n / 256)

/-- `from_le_bytes`. -/
def ofLe : List UInt8 → Nat
  | [] => 0
  | byte :: rest => byte.toNat + 256 * ofLe rest

@[simp] theorem length_toLe (width n : Nat) : (toLe width n).length = width := by
  induction width generalizing n with
  | zero => rfl
  | succ width ih => simp [toLe, ih]

theorem ofLe_toLe {width n : Nat} (h : n < 256 ^ width) : ofLe (toLe width n) = n := by
  induction width generalizing n with
  | zero =>
    have hzero : n = 0 := by simpa using h
    rw [hzero]
    rfl
  | succ width ih =>
    have hrest : n / 256 < 256 ^ width := by
      apply Nat.div_lt_of_lt_mul
      rw [Nat.pow_succ] at h
      omega
    have hbyte : (UInt8.ofNat (n % 256)).toNat = n % 256 := by simp
    rw [toLe, ofLe, ih hrest, hbyte]
    omega

theorem ofLe_lt (bytes : List UInt8) : ofLe bytes < 256 ^ bytes.length := by
  induction bytes with
  | nil => decide
  | cons byte rest ih =>
    have hbyte := byte.toNat_lt
    simp only [ofLe, List.length_cons, Nat.pow_succ]
    omega

theorem toLe_ofLe (bytes : List UInt8) : toLe bytes.length (ofLe bytes) = bytes := by
  induction bytes with
  | nil => rfl
  | cons byte rest ih =>
    have hbyte := byte.toNat_lt
    have hlow : (byte.toNat + 256 * ofLe rest) % 256 = byte.toNat := by omega
    have hhigh : (byte.toNat + 256 * ofLe rest) / 256 = ofLe rest := by omega
    simp [toLe, ofLe, hlow, hhigh, ih]

/-- `bytes[start..start + width]`. -/
def slice (bytes : List UInt8) (start width : Nat) : List UInt8 :=
  (bytes.drop start).take width

/-- The number in the field at `start`. -/
def field (bytes : List UInt8) (start width : Nat) : Nat := ofLe (slice bytes start width)

theorem length_slice {bytes : List UInt8} {start width : Nat} (h : start + width ≤ bytes.length) :
    (slice bytes start width).length = width := by
  rw [slice, List.length_take, List.length_drop]
  omega

theorem slice_skip {first second : List UInt8} {start width skipped : Nat}
    (hlength : first.length = skipped) (hle : skipped ≤ start) :
    slice (first ++ second) start width = slice second (start - skipped) width := by
  unfold slice
  rw [List.drop_append, List.drop_eq_nil_of_le (by omega), List.nil_append, hlength]

theorem slice_front {first second : List UInt8} {width : Nat} (hlength : first.length = width) :
    slice (first ++ second) 0 width = first := by
  unfold slice
  rw [List.drop_zero, List.take_append_of_le_length (by omega), List.take_of_length_le (by omega)]

theorem slice_whole {bytes : List UInt8} {width : Nat} (hlength : bytes.length = width) :
    slice bytes 0 width = bytes := by
  unfold slice
  rw [List.drop_zero, List.take_of_length_le (by omega)]

/-! ## Texts -/

/-- `String::into_bytes`. -/
def ofText (text : String) : List UInt8 := text.toByteArray.data.toList

/-- `String::from_utf8`. -/
def toText (bytes : List UInt8) : Option String := String.fromUTF8? ⟨bytes.toArray⟩

theorem fromUTF8?_toByteArray (text : String) : String.fromUTF8? text.toByteArray = some text := by
  unfold String.fromUTF8?
  rw [dif_pos text.isValidUTF8]
  rfl

theorem toText_ofText (text : String) : toText (ofText text) = some text := by
  rw [toText, ofText, Array.toArray_toList]
  exact fromUTF8?_toByteArray text

theorem length_ofText (text : String) : (ofText text).length = text.utf8ByteSize := by
  rw [ofText, Array.length_toList]
  exact String.size_toByteArray

theorem ofText_toText {bytes : List UInt8} {text : String} (h : toText bytes = some text) :
    ofText text = bytes := by
  unfold toText String.fromUTF8? at h
  split at h
  · cases h
    rfl
  · cases h

theorem toList_loop (bytes : ByteArray) (start : Nat) (read : List UInt8) :
    ByteArray.toList.loop bytes start read = read.reverse ++ bytes.data.toList.drop start := by
  fun_induction ByteArray.toList.loop bytes start read with
  | case1 start read hstart ih =>
    have hlt : start < bytes.data.toList.length := by rwa [Array.length_toList]
    have hbyte : bytes.get! start = bytes.data.toList[start] := by
      rw [Array.getElem_toList]
      exact getElem!_pos bytes.data start hstart
    rw [ih, List.drop_eq_getElem_cons hlt, List.reverse_cons, List.append_assoc, hbyte]
    rfl
  | case2 start read hend =>
    have hge : bytes.data.toList.length ≤ start := by
      rw [Array.length_toList]
      exact not_lt.mp hend
    rw [List.drop_eq_nil_of_le hge, List.append_nil]

theorem toByteArray_toList (text : String) : text.toByteArray.toList = ofText text := by
  rw [ByteArray.toList, toList_loop]
  rfl

theorem utf8ByteSize_replicate (count : Nat) :
    (String.ofList (List.replicate count 'a')).utf8ByteSize = count := by
  induction count with
  | zero => rfl
  | succ count ih =>
    have hsplit : String.ofList (List.replicate (count + 1) 'a') =
        String.ofList (List.replicate count 'a') ++ String.singleton 'a' := by
      rw [String.singleton_eq_ofList, ← String.ofList_append, List.replicate_succ']
    rw [hsplit, String.utf8ByteSize_append, ih]
    rfl

end Lib.Bytes
