import Hataori.Pmap.Verdict
import Mathlib.Data.Prod.Lex

/-!
# Error keys

`ErrorKey::new` of `src/src/wire.rs` with its machine integers: the task key is a
`u64`, the rank and the world size are `i32`, and the key is computed in `u128`
before it is stored as an `i64`. A key is a number of three digits, the task key,
the class and the rank; the minimum over all ranks is the first failure, and its
last digit names the rank that reports it.
-/

namespace Hataori.Pmap

/-- `WireError`, of the kinds `ErrorKey::new` returns. -/
inductive KeyError where
  | invalidWorldSize (worldSize : Int32)
  | invalidRank (rank worldSize : Int32)
  | errorKeyOverflow
  deriving DecidableEq, Repr

/-- `ErrorKey`. -/
structure ErrorKey where
  get : Int
  deriving DecidableEq, Repr

/-- `validate_world_rank`. -/
def validateWorldRank (rank worldSize : Int32) : Except KeyError Unit :=
  if worldSize.toInt ≤ 0 then .error (.invalidWorldSize worldSize)
  else if rank.toInt < 0 ∨ worldSize.toInt ≤ rank.toInt then .error (.invalidRank rank worldSize)
  else .ok ()

/-- A `u128` result that fits; an overflow is a panic. -/
def u128 (value : Nat) : Option Nat :=
  if value < 2 ^ 128 then some value else none

/-- `as u128` of an `i32`, which extends the sign. -/
def asU128 (value : Int32) : Nat :=
  (value.toInt % 2 ^ 128).toNat

/-- `as i64` of a `u128`, which keeps the low bits. -/
def asI64 (value : Nat) : Int :=
  Int.bmod value (2 ^ 64)

/-- `as i32` of an `i64`. -/
def asI32 (value : Int) : Int32 :=
  Int32.ofInt value

/-- `ErrorKey::new`; `none` is an overflow of the `u128` arithmetic. -/
def ErrorKey.new (taskKey : UInt64) (errorClass : ErrorClass) (rank worldSize : Int32) :
    Option (Except KeyError ErrorKey) :=
  match validateWorldRank rank worldSize with
  | .error error => some (.error error)
  | .ok () => do
    let scaled ← u128 (taskKey.toNat * ErrorClass.count)
    let classed ← u128 (scaled + errorClass.code)
    let shifted ← u128 (classed * asU128 worldSize)
    let value ← u128 (shifted + asU128 rank)
    if noErrorKey ≤ value then some (.error .errorKeyOverflow)
    else some (.ok ⟨asI64 value⟩)

/-- The rank `broadcast_error` takes from the selected key. -/
def winner (selected : Int) (worldSize : Int32) : Int32 :=
  asI32 (selected.tmod worldSize.toInt)

/-- The value a key stands for, over the integers. -/
def exactKey (taskKey : UInt64) (errorClass : ErrorClass) (rank worldSize : Int32) : Int :=
  (taskKey.toNat * 3 + errorClass.code) * worldSize.toInt + rank.toInt

/-- What a key packs, in the order of `(task, class, rank)`. -/
def precedence (taskKey : UInt64) (errorClass : ErrorClass) (rank : Int32) :
    Lex (Nat × Lex (Nat × Int)) :=
  toLex (taskKey.toNat, toLex (errorClass.code, rank.toInt))

theorem ErrorClass.code_lt (errorClass : ErrorClass) : errorClass.code < 3 := by
  cases errorClass <;> decide

theorem ErrorClass.code_injective {first second : ErrorClass} (h : first.code = second.code) :
    first = second := by
  cases first <;> cases second <;> simp [ErrorClass.code] at h ⊢

/-- The order of two numbers with the same last base is the order of their digits. -/
theorem digits_lt_iff {high high' low low' base : Int} (h : 0 ≤ low) (hlt : low < base)
    (h' : 0 ≤ low') (hlt' : low' < base) :
    high * base + low < high' * base + low' ↔ high < high' ∨ high = high' ∧ low < low' := by
  rcases lt_trichotomy high high' with hless | heq | hmore
  · have hstep : (high + 1) * base ≤ high' * base :=
      Int.mul_le_mul_of_nonneg_right hless (by omega)
    rw [Int.add_mul, Int.one_mul] at hstep
    constructor
    · intro _
      exact .inl hless
    · intro _
      omega
  · subst heq
    simp
  · have hstep : (high' + 1) * base ≤ high * base :=
      Int.mul_le_mul_of_nonneg_right hmore (by omega)
    rw [Int.add_mul, Int.one_mul] at hstep
    constructor
    · intro hlow
      omega
    · rintro (hless | ⟨heq, -⟩) <;> omega

theorem validateWorldRank_ok_iff {rank worldSize : Int32} :
    validateWorldRank rank worldSize = .ok () ↔
      0 ≤ rank.toInt ∧ rank.toInt < worldSize.toInt := by
  unfold validateWorldRank
  split
  · simp
    omega
  · split
    · simp
      omega
    · simp
      omega

theorem u128_of_lt {value : Nat} (h : value < 2 ^ 128) : u128 value = some value :=
  if_pos h

theorem asU128_of_nonneg {value : Int32} (h : 0 ≤ value.toInt) :
    asU128 value = value.toInt.toNat := by
  have hlt := Int32.toInt_lt value
  unfold asU128
  rw [Int.emod_eq_of_lt h (by omega)]

theorem asI64_of_lt {value : Nat} (h : value < noErrorKey) : asI64 value = value := by
  unfold noErrorKey at h
  unfold asI64
  exact Int.bmod_eq_of_le (by omega) (by omega)

section Ranked

variable {taskKey : UInt64} {errorClass : ErrorClass} {rank worldSize : Int32}

theorem exactKey_eq (h : 0 ≤ rank.toInt) (hlt : rank.toInt < worldSize.toInt) :
    exactKey taskKey errorClass rank worldSize =
      (((taskKey.toNat * 3 + errorClass.code) * worldSize.toInt.toNat + rank.toInt.toNat : Nat) :
        Int) := by
  unfold exactKey
  push_cast
  rw [Int.toNat_of_nonneg h, Int.toNat_of_nonneg (a := worldSize.toInt) (by omega)]

/-- No step of the computation leaves `u128`: a task key has 64 bits, a class two
    and a world size 31. -/
theorem ErrorKey.new_eq (h : 0 ≤ rank.toInt) (hlt : rank.toInt < worldSize.toInt) :
    ErrorKey.new taskKey errorClass rank worldSize =
      some (if (noErrorKey : Int) ≤ exactKey taskKey errorClass rank worldSize
        then .error .errorKeyOverflow
        else .ok ⟨exactKey taskKey errorClass rank worldSize⟩) := by
  have htask := taskKey.toNat_lt
  have hclass := errorClass.code_lt
  have hworld := Int32.toInt_lt worldSize
  have hsize : asU128 worldSize = worldSize.toInt.toNat := asU128_of_nonneg (by omega)
  have hrank : asU128 rank = rank.toInt.toNat := asU128_of_nonneg h
  have hproduct : (taskKey.toNat * 3 + errorClass.code) * worldSize.toInt.toNat ≤
      2 ^ 66 * 2 ^ 31 := Nat.mul_le_mul (by omega) (by omega)
  unfold ErrorKey.new
  rw [validateWorldRank_ok_iff.mpr ⟨h, hlt⟩, hsize, hrank, exactKey_eq h hlt]
  dsimp only [ErrorClass.count]
  rw [u128_of_lt (by omega)]
  change (u128 _).bind _ = _
  rw [u128_of_lt (by omega), Option.bind_some, u128_of_lt (by omega), Option.bind_eq_bind,
    Option.bind_some, u128_of_lt (by omega), Option.bind_some]
  generalize (taskKey.toNat * 3 + errorClass.code) * worldSize.toInt.toNat + rank.toInt.toNat =
    value
  by_cases hfull : noErrorKey ≤ value
  · rw [if_pos hfull, if_pos (by omega)]
  · rw [if_neg hfull, if_neg (by omega), asI64_of_lt (by omega)]

theorem exactKey_nonneg (h : 0 ≤ rank.toInt) (hlt : rank.toInt < worldSize.toInt) :
    0 ≤ exactKey taskKey errorClass rank worldSize := by
  have hproduct : 0 ≤ ((taskKey.toNat * 3 + errorClass.code : Nat) : Int) * worldSize.toInt :=
    Int.mul_nonneg (by omega) (by omega)
  unfold exactKey
  push_cast at hproduct
  omega

/-- The remainder of a key by the world size is the reporting rank. -/
theorem winner_exactKey (h : 0 ≤ rank.toInt) (hlt : rank.toInt < worldSize.toInt) :
    winner (exactKey taskKey errorClass rank worldSize) worldSize = rank := by
  unfold winner
  rw [Int.tmod_eq_emod_of_nonneg (exactKey_nonneg h hlt)]
  unfold exactKey
  rw [Int.add_comm, Int.add_mul_emod_self_right, Int.emod_eq_of_lt h hlt]
  exact Int32.ofInt_toInt rank

theorem ErrorKey.new_ok {key : ErrorKey}
    (h : ErrorKey.new taskKey errorClass rank worldSize = some (.ok key)) :
    0 ≤ rank.toInt ∧ rank.toInt < worldSize.toInt ∧
      key.get = exactKey taskKey errorClass rank worldSize := by
  have hvalid : validateWorldRank rank worldSize = .ok () := by
    unfold ErrorKey.new at h
    cases hcheck : validateWorldRank rank worldSize with
    | error error =>
      rw [hcheck] at h
      cases h
    | ok _ => rfl
  obtain ⟨hrank, hlt⟩ := validateWorldRank_ok_iff.mp hvalid
  refine ⟨hrank, hlt, ?_⟩
  rw [ErrorKey.new_eq hrank hlt] at h
  split at h
  · cases h
  · cases h
    rfl

end Ranked

/-- With one world size the keys are ordered as what they pack. -/
theorem exactKey_lt_iff {taskKey taskKey' : UInt64} {errorClass errorClass' : ErrorClass}
    {rank rank' worldSize : Int32} (h : 0 ≤ rank.toInt) (hlt : rank.toInt < worldSize.toInt)
    (h' : 0 ≤ rank'.toInt) (hlt' : rank'.toInt < worldSize.toInt) :
    exactKey taskKey errorClass rank worldSize < exactKey taskKey' errorClass' rank' worldSize ↔
      precedence taskKey errorClass rank < precedence taskKey' errorClass' rank' := by
  have hclass := errorClass.code_lt
  have hclass' := errorClass'.code_lt
  unfold exactKey precedence
  rw [digits_lt_iff h hlt h' hlt', Prod.Lex.toLex_lt_toLex, Prod.Lex.toLex_lt_toLex,
    digits_lt_iff (by omega) (by omega) (by omega) (by omega)]
  dsimp only
  omega

theorem precedence_injective {taskKey taskKey' : UInt64} {errorClass errorClass' : ErrorClass}
    {rank rank' : Int32}
    (h : precedence taskKey errorClass rank = precedence taskKey' errorClass' rank') :
    taskKey = taskKey' ∧ errorClass = errorClass' ∧ rank = rank' := by
  obtain ⟨htask, hrest⟩ := Prod.mk.inj (toLex_inj.mp h)
  obtain ⟨hclass, hrank⟩ := Prod.mk.inj (toLex_inj.mp hrest)
  exact ⟨UInt64.toNat_inj.mp htask, ErrorClass.code_injective hclass, Int32.toInt_inj.mp hrank⟩

/-- The key the protocol model packs is the code's, with an error for no key. -/
theorem ErrorKey.new_errorKey {taskKey : UInt64} {errorClass : ErrorClass}
    {rank worldSize : Int32} (h : 0 ≤ rank.toInt) (hlt : rank.toInt < worldSize.toInt) :
    errorKey taskKey.toNat errorClass rank.toInt.toNat worldSize.toInt.toNat =
      match ErrorKey.new taskKey errorClass rank worldSize with
      | some (.ok key) => some key.get.toNat
      | _ => none := by
  rw [ErrorKey.new_eq h hlt, exactKey_eq h hlt]
  unfold errorKey ErrorClass.count
  rw [if_pos (by omega)]
  dsimp only
  generalize (taskKey.toNat * 3 + errorClass.code) * worldSize.toInt.toNat + rank.toInt.toNat =
    value
  by_cases hfull : noErrorKey ≤ value
  · rw [if_neg (by omega), if_pos (by omega)]
  · rw [if_pos (by omega), if_neg (by omega)]
    rfl

/-- Keys order and identify failures: the arithmetic never overflows, a key is
    refused exactly when its value does not fit below `NO_ERROR_KEY`, keys of one
    world size are ordered as `(task, class, rank)` and equal only for equal ones,
    and the remainder by the world size is the rank that reports. -/
theorem ErrorKey.new_identifies (worldSize : Int32) :
    (∀ taskKey errorClass rank, 0 ≤ rank.toInt → rank.toInt < worldSize.toInt →
      ∃ result, ErrorKey.new taskKey errorClass rank worldSize = some result ∧
        (result = .error .errorKeyOverflow ↔
          (noErrorKey : Int) ≤ exactKey taskKey errorClass rank worldSize) ∧
        (exactKey taskKey errorClass rank worldSize < noErrorKey →
          ∃ key : ErrorKey, result = .ok key ∧
            key.get = exactKey taskKey errorClass rank worldSize ∧
            0 ≤ key.get ∧ key.get < noErrorKey ∧
            key.get % worldSize.toInt = rank.toInt ∧ winner key.get worldSize = rank)) ∧
      ∀ taskKey errorClass rank taskKey' errorClass' rank' key key',
        ErrorKey.new taskKey errorClass rank worldSize = some (.ok key) →
        ErrorKey.new taskKey' errorClass' rank' worldSize = some (.ok key') →
        (key.get < key'.get ↔
          precedence taskKey errorClass rank < precedence taskKey' errorClass' rank') ∧
        (key = key' → taskKey = taskKey' ∧ errorClass = errorClass' ∧ rank = rank') := by
  constructor
  · intro taskKey errorClass rank h hlt
    refine ⟨_, ErrorKey.new_eq h hlt, ?_, ?_⟩
    · split
      · simpa
      · rename_i hfits
        exact iff_of_false (by simp) hfits
    · intro hfits
      rw [if_neg (by omega)]
      refine ⟨_, rfl, rfl, exactKey_nonneg h hlt, hfits, ?_, winner_exactKey h hlt⟩
      dsimp only
      unfold exactKey
      rw [Int.add_comm, Int.add_mul_emod_self_right, Int.emod_eq_of_lt h hlt]
  · intro taskKey errorClass rank taskKey' errorClass' rank' key key' hnew hnew'
    obtain ⟨h, hlt, hkey⟩ := ErrorKey.new_ok hnew
    obtain ⟨h', hlt', hkey'⟩ := ErrorKey.new_ok hnew'
    have hiff : key.get < key'.get ↔
        precedence taskKey errorClass rank < precedence taskKey' errorClass' rank' := by
      rw [hkey, hkey']
      exact exactKey_lt_iff h hlt h' hlt'
    have hiff' : key'.get < key.get ↔
        precedence taskKey' errorClass' rank' < precedence taskKey errorClass rank := by
      rw [hkey, hkey']
      exact exactKey_lt_iff h' hlt' h hlt
    refine ⟨hiff, ?_⟩
    intro heq
    -- neither key is below the other, so neither is what they pack
    rw [heq] at hiff hiff'
    rcases lt_trichotomy (precedence taskKey errorClass rank)
      (precedence taskKey' errorClass' rank') with hless | hsame | hmore
    · exact absurd (hiff.mpr hless) (lt_irrefl _)
    · exact precedence_injective hsame
    · exact absurd (hiff'.mpr hmore) (lt_irrefl _)

example : ErrorKey.new 2 .callback 1 4 = some (.ok ⟨29⟩) := by decide

end Hataori.Pmap
