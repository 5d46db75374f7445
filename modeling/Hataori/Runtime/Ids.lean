import Mathlib.Data.BitVec

/-!
# Identifiers, places and errors

The identifiers of `hataori-runtime-foundation/src/protocol.rs`. An id the code
refuses to build (a zero `u128`, a zero slot or epoch) cannot be built here
either: the constructor's check is a field.
-/

namespace Hataori.Runtime

/-- Encoded values: a list of byte segments. -/
abbrev Segments := List (List UInt8)

/-- `LocalityId(u64)`. -/
structure LocalityId where
  get : UInt64
  deriving DecidableEq, Repr

/-- `DomainId(u32)`. -/
structure DomainId where
  get : UInt32
  deriving DecidableEq, Repr

/-- `RunId`, a nonzero `u128`. -/
structure RunId where
  get : BitVec 128
  nonzero : get ≠ 0
  deriving DecidableEq, Repr

/-- `ActionId`, a nonzero `u128`. -/
structure ActionId where
  get : BitVec 128
  nonzero : get ≠ 0
  deriving DecidableEq, Repr

/-- `ObjectTypeId`, a nonzero `u128`. -/
structure ObjectTypeId where
  get : BitVec 128
  nonzero : get ≠ 0
  deriving DecidableEq, Repr

/-- `ObjectId`: the run it was created in and a nonzero `u128`. -/
structure ObjectId where
  run : RunId
  unique : BitVec 128
  nonzero : unique ≠ 0
  deriving DecidableEq, Repr

/-- `RequestId`: the origin and a nonzero `u64` sequence number. -/
structure RequestId where
  origin : LocalityId
  sequence : UInt64
  nonzero : sequence ≠ 0
  deriving DecidableEq, Repr

/-- `RunId::new`. -/
def RunId.new (value : Nat) : Option RunId :=
  if h : BitVec.ofNat 128 value ≠ 0 then some ⟨_, h⟩ else none

/-- `ActionId::new`. -/
def ActionId.new (value : Nat) : Option ActionId :=
  if h : BitVec.ofNat 128 value ≠ 0 then some ⟨_, h⟩ else none

/-- `ObjectTypeId::new`. -/
def ObjectTypeId.new (value : Nat) : Option ObjectTypeId :=
  if h : BitVec.ofNat 128 value ≠ 0 then some ⟨_, h⟩ else none

/-- `ObjectId::new`. -/
def ObjectId.new (run : RunId) (unique : Nat) : Option ObjectId :=
  if h : BitVec.ofNat 128 unique ≠ 0 then some ⟨run, _, h⟩ else none

/-- `RequestId::new`. -/
def RequestId.new (origin : LocalityId) (sequence : Nat) : Option RequestId :=
  if h : UInt64.ofNat sequence ≠ 0 then some ⟨origin, _, h⟩ else none

/-! ## Identifiers and their numbers -/

theorem toNat_ofNat_u128 {value : Nat} (h : value < 256 ^ 16) :
    (BitVec.ofNat 128 value).toNat = value := by
  rw [BitVec.toNat_ofNat, Nat.mod_eq_of_lt]
  exact h

theorem RunId.new_get (run : RunId) : RunId.new run.get.toNat = some run := by
  simp only [RunId.new, BitVec.ofNat_toNat, BitVec.setWidth_eq, dif_pos run.nonzero]

theorem RunId.new_some {value : Nat} {run : RunId} (h : RunId.new value = some run)
    (hvalue : value < 256 ^ 16) : run.get.toNat = value := by
  unfold RunId.new at h
  split at h
  · cases h
    exact toNat_ofNat_u128 hvalue
  · cases h

theorem ActionId.new_get (action : ActionId) : ActionId.new action.get.toNat = some action := by
  simp only [ActionId.new, BitVec.ofNat_toNat, BitVec.setWidth_eq, dif_pos action.nonzero]

theorem ActionId.new_some {value : Nat} {action : ActionId} (h : ActionId.new value = some action)
    (hvalue : value < 256 ^ 16) : action.get.toNat = value := by
  unfold ActionId.new at h
  split at h
  · cases h
    exact toNat_ofNat_u128 hvalue
  · cases h

theorem ActionId.get_injective {first second : ActionId} (h : first.get = second.get) :
    first = second := by
  cases first
  cases second
  cases h
  rfl

theorem ObjectTypeId.new_get (objectType : ObjectTypeId) :
    ObjectTypeId.new objectType.get.toNat = some objectType := by
  simp only [ObjectTypeId.new, BitVec.ofNat_toNat, BitVec.setWidth_eq, dif_pos objectType.nonzero]

theorem ObjectTypeId.new_some {value : Nat} {objectType : ObjectTypeId}
    (h : ObjectTypeId.new value = some objectType) (hvalue : value < 256 ^ 16) :
    objectType.get.toNat = value := by
  unfold ObjectTypeId.new at h
  split at h
  · cases h
    exact toNat_ofNat_u128 hvalue
  · cases h

theorem ObjectId.new_get (object : ObjectId) :
    ObjectId.new object.run object.unique.toNat = some object := by
  simp only [ObjectId.new, BitVec.ofNat_toNat, BitVec.setWidth_eq, dif_pos object.nonzero]

theorem ObjectId.new_some {run : RunId} {unique : Nat} {object : ObjectId}
    (h : ObjectId.new run unique = some object) (hunique : unique < 256 ^ 16) :
    object.run = run ∧ object.unique.toNat = unique := by
  unfold ObjectId.new at h
  split at h
  · cases h
    exact ⟨rfl, toNat_ofNat_u128 hunique⟩
  · cases h

theorem RequestId.new_get (request : RequestId) :
    RequestId.new request.origin request.sequence.toNat = some request := by
  simp [RequestId.new, request.nonzero]

theorem RequestId.new_some {origin : LocalityId} {sequence : Nat} {request : RequestId}
    (h : RequestId.new origin sequence = some request) (hsequence : sequence < 256 ^ 8) :
    request.origin = origin ∧ request.sequence.toNat = sequence := by
  unfold RequestId.new at h
  split at h
  · cases h
    exact ⟨rfl, UInt64.toNat_ofNat_of_lt' hsequence⟩
  · cases h

/-! ## Small ids -/

theorem u128_one : (1 : BitVec 128) ≠ 0 := by decide

theorem u128_two : (2 : BitVec 128) ≠ 0 := by decide

theorem u128_three : (3 : BitVec 128) ≠ 0 := by decide

theorem u64_one : (1 : UInt64) ≠ 0 := by decide

theorem u64_two : (2 : UInt64) ≠ 0 := by decide

theorem u64_three : (3 : UInt64) ≠ 0 := by decide

theorem u64_four : (4 : UInt64) ≠ 0 := by decide

theorem u64_five : (5 : UInt64) ≠ 0 := by decide

theorem u64_nine : (9 : UInt64) ≠ 0 := by decide

/-- A domain of a locality. -/
structure Place where
  locality : LocalityId
  domain : DomainId
  deriving DecidableEq, Repr

/-- One past the largest `u64`. -/
def u64Bound : Nat := 2 ^ 64

/-- `u64::checked_add(1)`. -/
def checkedSucc (n : Nat) : Option Nat :=
  if n + 1 < u64Bound then some (n + 1) else none

/-- `AtomicU64::fetch_sub`, which wraps. -/
def fetchSub (count amount : Nat) : Nat :=
  (count + (u64Bound - amount % u64Bound)) % u64Bound

/-- `ObjectLocation`: slot, generation and epoch are nonzero and fit their
    widths (`u64`, `u32`, `u64`). -/
structure ObjectLocation where
  locality : LocalityId
  domain : DomainId
  slot : Nat
  generation : Nat
  epoch : Nat
  valid : (0 < slot ∧ slot < u64Bound) ∧ (0 < generation ∧ generation < 2 ^ 32) ∧
    (0 < epoch ∧ epoch < u64Bound)
  deriving DecidableEq, Repr

namespace ObjectLocation

/-- `ObjectLocation::new`. -/
def new (locality : LocalityId) (domain : DomainId) (slot generation epoch : Nat) :
    Option ObjectLocation :=
  if h : (0 < slot ∧ slot < u64Bound) ∧ (0 < generation ∧ generation < 2 ^ 32) ∧
      (0 < epoch ∧ epoch < u64Bound) then
    some ⟨locality, domain, slot, generation, epoch, h⟩
  else none

/-- The place of a location. -/
def place (location : ObjectLocation) : Place := ⟨location.locality, location.domain⟩

theorem new_get (location : ObjectLocation) :
    new location.locality location.domain location.slot location.generation location.epoch =
      some location := by
  rw [new, dif_pos location.valid]

theorem new_eq_some {locality : LocalityId} {domain : DomainId} {slot generation epoch : Nat}
    {location : ObjectLocation} (h : new locality domain slot generation epoch = some location) :
    location.locality = locality ∧ location.domain = domain ∧ location.slot = slot ∧
      location.generation = generation ∧ location.epoch = epoch := by
  unfold new at h
  split at h
  · cases h
    exact ⟨rfl, rfl, rfl, rfl, rfl⟩
  · cases h

/-- The first slot, generation and epoch. -/
theorem valid_first : (0 < 1 ∧ 1 < u64Bound) ∧ (0 < 1 ∧ 1 < 2 ^ 32) ∧ (0 < 1 ∧ 1 < u64Bound) := by
  decide

theorem valid_secondEpoch :
    (0 < 1 ∧ 1 < u64Bound) ∧ (0 < 1 ∧ 1 < 2 ^ 32) ∧ (0 < 2 ∧ 2 < u64Bound) := by
  decide

theorem valid_secondSlot :
    (0 < 2 ∧ 2 < u64Bound) ∧ (0 < 1 ∧ 1 < 2 ^ 32) ∧ (0 < 1 ∧ 1 < u64Bound) := by
  decide

theorem epoch_one : 0 < 1 ∧ 1 < u64Bound := by decide

end ObjectLocation

theorem fetchSub_of_le {count amount : Nat} (h : amount ≤ count) (hcount : count < u64Bound) :
    fetchSub count amount = count - amount := by
  have hamount : amount % u64Bound = amount := Nat.mod_eq_of_lt (h.trans_lt hcount)
  have hwrapped : count + (u64Bound - amount) = count - amount + u64Bound := by omega
  rw [fetchSub, hamount, hwrapped, Nat.add_mod_right]
  exact Nat.mod_eq_of_lt (by omega)

theorem checkedSucc_eq_some {n k : Nat} : checkedSucc n = some k ↔ k = n + 1 ∧ n + 1 < u64Bound := by
  unfold checkedSucc
  split
  · simp only [Option.some.injEq]
    constructor
    · rintro rfl
      exact ⟨rfl, by assumption⟩
    · rintro ⟨rfl, _⟩
      rfl
  · simp only [reduceCtorEq, false_iff, not_and]
    intro _
    assumption

end Hataori.Runtime
