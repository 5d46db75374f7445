import Hataori.Lib.Bytes

/-!
# Readers of a byte stream

A reader takes bytes from the front of a stream and leaves the rest, or stops with an error. What
a reader that succeeds finds does not depend on what lies behind the bytes it takes.
-/

namespace Lib.Readers

open Lib.Bytes

variable {ε α β : Type}

/-- A reader of `α` that stops with an `ε`. -/
abbrev ByteReader (ε α : Type) := StateT (List UInt8) (Except ε) α

/-- `read_exact`; `short` is the error of a stream that ends too early. -/
def readExact (short : ε) (count : Nat) : ByteReader ε (List UInt8) := fun bytes =>
  if bytes.length < count then .error short else .ok (bytes.take count, bytes.drop count)

/-- A result that does not come from the stream. -/
def given (found : Except ε α) : ByteReader ε α := fun bytes => found.map fun value => (value, bytes)

/-- One value after another. -/
def readMany (reader : ByteReader ε α) : Nat → ByteReader ε (List α)
  | 0 => pure []
  | count + 1 => do
    let value ← reader
    let values ← readMany reader count
    pure (value :: values)

theorem readExact_append {short : ε} {count : Nat} {first rest : List UInt8}
    (h : first.length = count) : readExact short count (first ++ rest) = .ok (first, rest) := by
  subst h
  rw [readExact, if_neg (by simp), List.take_left, List.drop_left]

theorem bind_run {reader : ByteReader ε α} {next : α → ByteReader ε β} {bytes rest : List UInt8} {value : α}
    (h : reader bytes = .ok (value, rest)) : (reader >>= next) bytes = next value rest := by
  change (reader bytes >>= fun found => next found.1 found.2) = _
  rw [h]
  rfl

theorem bind_ok_run {reader : ByteReader ε α} {next : α → ByteReader ε β} {bytes : List UInt8}
    {found : β × List UInt8} (h : (reader >>= next) bytes = .ok found) :
    ∃ value rest, reader bytes = .ok (value, rest) ∧ next value rest = .ok found := by
  change (reader bytes >>= fun first => next first.1 first.2) = _ at h
  cases hread : reader bytes with
  | error error =>
    rw [hread] at h
    cases h
  | ok first =>
    rw [hread] at h
    exact ⟨first.1, first.2, rfl, h⟩

theorem given_ok {found : Except ε α} {value : α} (h : found = .ok value) (bytes : List UInt8) :
    given found bytes = .ok (value, bytes) := by
  rw [h]
  rfl

/-! ## Steady readers -/

/-- What the reader finds stays the same when more bytes follow. -/
def Steady (reader : ByteReader ε α) : Prop :=
  ∀ ⦃bytes value rest⦄, reader bytes = .ok (value, rest) →
    ∀ more, reader (bytes ++ more) = .ok (value, rest ++ more)

theorem steady_readExact (short : ε) (count : Nat) : Steady (readExact short count) := by
  intro bytes value rest h more
  unfold readExact at h ⊢
  split at h
  · cases h
  next hcount =>
    rw [not_lt] at hcount
    cases h
    rw [if_neg (by rw [List.length_append]; omega), List.take_append_of_le_length hcount,
      List.drop_append_of_le_length hcount]

theorem steady_given (found : Except ε α) : Steady (given found) := by
  intro bytes value rest h more
  cases found with
  | error error => cases h
  | ok found =>
    cases h
    rfl

theorem steady_pure (value : α) : Steady (pure value : ByteReader ε α) := by
  intro bytes found rest h more
  cases h
  rfl

theorem Steady.bind {reader : ByteReader ε α} {next : α → ByteReader ε β} (h : Steady reader)
    (hnext : ∀ value, Steady (next value)) : Steady (reader >>= next) := by
  intro bytes found rest hread more
  obtain ⟨value, left, hfirst, hsecond⟩ := bind_ok_run hread
  rw [bind_run (h hfirst more)]
  exact hnext value hsecond more

theorem Steady.ite {cond : Prop} [Decidable cond] {first second : ByteReader ε α} (hfirst : Steady first)
    (hsecond : Steady second) : Steady (if cond then first else second) := by
  split
  · exact hfirst
  · exact hsecond

theorem steady_readMany {reader : ByteReader ε α} (h : Steady reader) (count : Nat) :
    Steady (readMany reader count) := by
  induction count with
  | zero => exact steady_pure []
  | succ count ih => exact h.bind fun value => ih.bind fun values => steady_pure (value :: values)

/-- The values that were written one after another are read back. -/
theorem readMany_flatMap {reader : ByteReader ε α} {write : α → List UInt8} {values : List α}
    (h : ∀ value ∈ values, ∀ rest, reader (write value ++ rest) = .ok (value, rest))
    (rest : List UInt8) :
    readMany reader values.length (values.flatMap write ++ rest) = .ok (values, rest) := by
  induction values with
  | nil => rfl
  | cons value values ih =>
    obtain ⟨hvalue, hvalues⟩ := List.forall_mem_cons.mp h
    rw [List.flatMap_cons, List.append_assoc, List.length_cons, readMany, bind_run (hvalue _),
      bind_run (ih hvalues)]
    rfl

end Lib.Readers
