import Hataori.Transport.Canonical
import Hataori.Transport.Bootstrap
import Hataori.Transport.Mpi

/-!
# Limits all ranks agree on

Every rank of `MpiTransport::connect` folds the gathered hellos from its own limits and
capabilities on. The fold takes minima and intersections, so neither the order nor a hello met
twice matters, and every rank ends with the same connection.
-/

namespace Hataori.Transport

open Lib.Bytes Hataori.Runtime

/-! ## Folds that start from a member -/

section Folds

variable {α : Type} {op : α → α → α} [Std.Associative op] [Std.Commutative op]
  [Std.IdempotentOp op] {l : List α} {a b : α}

theorem op_foldl_of_mem (h : a ∈ l) : op a (l.foldl op b) = l.foldl op b := by
  induction l generalizing b with
  | nil => cases h
  | cons head rest ih =>
    rw [List.foldl_cons]
    rcases List.mem_cons.mp h with rfl | hrest
    · have habsorbed : op a (op b a) = op b a := by
        calc op a (op b a) = op a (op a b) := congrArg (op a) (Std.Commutative.comm b a)
          _ = op (op a a) b := (Std.Associative.assoc a a b).symm
          _ = op a b := congrArg (op · b) (Std.IdempotentOp.idempotent a)
          _ = op b a := Std.Commutative.comm a b
      calc op a (rest.foldl op (op b a)) = rest.foldl op (op a (op b a)) := List.foldl_assoc.symm
        _ = rest.foldl op (op b a) := by rw [habsorbed]
    · exact ih hrest

/-- A fold of an associative, commutative and idempotent operation gives the same from
    every member of the list on. -/
theorem foldl_eq_of_mem (ha : a ∈ l) (hb : b ∈ l) : l.foldl op a = l.foldl op b := by
  calc l.foldl op a = op b (l.foldl op a) := (op_foldl_of_mem hb).symm
    _ = l.foldl op (op b a) := List.foldl_assoc.symm
    _ = l.foldl op (op a b) := congrArg (l.foldl op ·) (Std.Commutative.comm b a)
    _ = op a (l.foldl op b) := List.foldl_assoc
    _ = l.foldl op b := op_foldl_of_mem ha

end Folds

/-! ## Limits -/

namespace ProtocolLimits

/-- Limits that `validate` accepts. -/
structure Valid (limits : ProtocolLimits) : Prop where
  frame : parcelFixedBytes ≤ limits.maxFrameBytes
  payload : 0 < limits.maxPayloadBytes
  segments : 0 < limits.maxSegments
  queued : 0 < limits.maxQueuedParcelsPerPeer
  control : 0 < limits.controlReservedBytesPerPeer
  reserve : limits.controlReservedBytesPerPeer < limits.maxInflightBytesPerPeer

variable {limits peer third : ProtocolLimits}

theorem valid_iff : limits.validate = .ok limits ↔ limits.Valid := by
  unfold validate
  constructor
  · intro h
    split at h
    · cases h
    · constructor <;> omega
  · rintro ⟨hframe, hpayload, hsegments, hqueued, hcontrol, hreserve⟩
    rw [if_neg (by omega)]

/-- The minimum keeps the reserve below the budget: the smaller budget comes with a reserve
    of its own below it. -/
theorem Valid.least (h : limits.Valid) (hpeer : peer.Valid) : (limits.least peer).Valid where
  frame := le_min h.frame hpeer.frame
  payload := lt_min h.payload hpeer.payload
  segments := lt_min h.segments hpeer.segments
  queued := lt_min h.queued hpeer.queued
  control := lt_min h.control hpeer.control
  reserve := min_lt_min h.reserve hpeer.reserve

theorem least_assoc (limits peer third : ProtocolLimits) :
    (limits.least peer).least third = limits.least (peer.least third) := by
  simp only [least, Nat.min_assoc]

theorem least_self (limits : ProtocolLimits) : limits.least limits = limits := by
  simp only [least, Nat.min_self]

instance : Std.Associative least := ⟨least_assoc⟩

instance : Std.Commutative least := ⟨least_comm⟩

instance : Std.IdempotentOp least := ⟨least_self⟩

/-- Valid limits always negotiate, to the minimum of each. -/
theorem Valid.negotiate (h : limits.Valid) (hpeer : peer.Valid) :
    limits.negotiate peer = .ok (limits.least peer) := by
  unfold ProtocolLimits.negotiate
  rw [valid_iff.mpr h, valid_iff.mpr hpeer, valid_iff.mpr (h.least hpeer)]
  rfl

theorem Valid.foldl {others : List ProtocolLimits} (h : limits.Valid)
    (hothers : ∀ other ∈ others, other.Valid) :
    (others.foldl ProtocolLimits.least limits).Valid := by
  induction others generalizing limits with
  | nil => exact h
  | cons other rest ih =>
    exact ih (h.least (hothers other (.head _))) fun later hlater =>
      hothers later (.tail _ hlater)

end ProtocolLimits

/-- A parcel that fits the minimum fits each side of it. -/
theorem Parcel.Fits.of_least {parcel : Parcel} {limits peer : ProtocolLimits}
    (h : parcel.Fits (limits.least peer)) (hlimits : limits.Valid) (hpeer : peer.Valid) :
    parcel.Fits limits ∧ parcel.Fits peer :=
  (Parcel.fits_least_iff (ProtocolLimits.valid_iff.mpr hlimits) (ProtocolLimits.valid_iff.mpr hpeer)
    (ProtocolLimits.valid_iff.mpr (hlimits.least hpeer))).mp h

/-- A parcel that fits what was agreed fits the limits of every participant. -/
theorem Parcel.Fits.of_foldl {parcel : Parcel} {limits : ProtocolLimits}
    {others : List ProtocolLimits} (hlimits : limits.Valid)
    (hothers : ∀ other ∈ others, other.Valid)
    (h : parcel.Fits (others.foldl ProtocolLimits.least limits)) :
    parcel.Fits limits ∧ ∀ other ∈ others, parcel.Fits other := by
  induction others generalizing limits with
  | nil => exact ⟨h, fun other hother => absurd hother List.not_mem_nil⟩
  | cons other rest ih =>
    have hother : other.Valid := hothers other (.head _)
    obtain ⟨hleast, hrest⟩ := ih (hlimits.least hother)
      (fun later hlater => hothers later (.tail _ hlater)) h
    obtain ⟨hmine, htheirs⟩ := hleast.of_least hlimits hother
    refine ⟨hmine, ?_⟩
    intro found hfound
    rcases List.mem_cons.mp hfound with rfl | hlater
    · exact htheirs
    · exact hrest found hlater

/-! ## Hellos -/

/-- Two hellos that differ in limits and capabilities only. -/
structure Hello.Matches (hello peer : Hello) : Prop where
  runId : hello.runId = peer.runId
  runtimeVersion : hello.runtimeVersion = peer.runtimeVersion
  actionRegistryHash : hello.actionRegistryHash = peer.actionRegistryHash
  objectRegistryHash : hello.objectRegistryHash = peer.objectRegistryHash

/-- `validate_peer` accepts exactly the hellos that match and have valid limits. -/
theorem Hello.validatePeer_iff {hello peer : Hello} {negotiated : NegotiatedHello} :
    hello.validatePeer peer = .ok negotiated ↔
      hello.Matches peer ∧ hello.limits.Valid ∧ peer.limits.Valid ∧
        negotiated = ⟨hello.capabilities &&& peer.capabilities,
          hello.limits.least peer.limits⟩ := by
  constructor
  · intro h
    unfold Hello.validatePeer at h
    split at h
    · cases h
    rename_i hrun
    split at h
    · cases h
    rename_i hversion
    split at h
    · cases h
    rename_i haction
    split at h
    · cases h
    rename_i hobject
    cases hlimits : hello.limits.negotiate peer.limits with
    | error error =>
      rw [hlimits] at h
      cases h
    | ok limits =>
      rw [hlimits] at h
      cases h
      obtain ⟨mine, hmine, hrest⟩ := bind_ok hlimits
      obtain ⟨theirs, htheirs, hleast⟩ := bind_ok hrest
      have hsame := ProtocolLimits.validate_ok hleast
      rw [ProtocolLimits.validate_ok hmine, ProtocolLimits.valid_iff] at hmine
      rw [ProtocolLimits.validate_ok htheirs, ProtocolLimits.valid_iff] at htheirs
      subst hsame
      exact ⟨⟨not_not.mp hrun, not_not.mp hversion, not_not.mp haction, not_not.mp hobject⟩,
        hmine, htheirs, rfl⟩
  · rintro ⟨⟨hrun, hversion, haction, hobject⟩, hmine, htheirs, rfl⟩
    unfold Hello.validatePeer
    rw [if_neg (not_not.mpr hrun), if_neg (not_not.mpr hversion), if_neg (not_not.mpr haction),
      if_neg (not_not.mpr hobject), hmine.negotiate htheirs]

/-- The loop of `connect` folds the limits and the capabilities of the gathered hellos. -/
theorem negotiateAll_eq {hello : Hello} {gathered : List (List UInt8)} {hellos : List Hello}
    (hdecoded : List.Forall₂ (fun bytes peer => decodeHello bytes = .ok peer) gathered hellos)
    (hmatches : ∀ peer ∈ hellos, hello.Matches peer) (hvalid : ∀ peer ∈ hellos, peer.limits.Valid)
    {limits : ProtocolLimits} (hlimits : limits.Valid) (capabilities : UInt64)
    (hwithin : hello.capabilities &&& capabilities = capabilities) :
    negotiateAll hello gathered limits capabilities =
      .ok ((hellos.map Hello.limits).foldl ProtocolLimits.least limits,
        (hellos.map Hello.capabilities).foldl (· &&& ·) capabilities) := by
  induction hdecoded generalizing limits capabilities with
  | nil => rfl
  | @cons bytes peer gathered hellos hdecode hrest ih =>
    have hpeer : peer.limits.Valid := hvalid peer (.head _)
    obtain ⟨hrun, hversion, haction, hobject⟩ := hmatches peer (.head _)
    have haccepts : ({ hello with limits := limits } : Hello).validatePeer peer =
        .ok ⟨hello.capabilities &&& peer.capabilities, limits.least peer.limits⟩ :=
      Hello.validatePeer_iff.mpr ⟨⟨hrun, hversion, haction, hobject⟩, hlimits, hpeer, rfl⟩
    have hcapabilities : capabilities &&& (hello.capabilities &&& peer.capabilities) =
        capabilities &&& peer.capabilities := by
      rw [← UInt64.and_assoc, UInt64.and_comm capabilities, hwithin]
    rw [negotiateAll, hdecode]
    change (fromProtocol (({ hello with limits := limits } : Hello).validatePeer peer) >>= _) = _
    rw [haccepts]
    change negotiateAll hello gathered (limits.least peer.limits)
      (capabilities &&& (hello.capabilities &&& peer.capabilities)) = _
    rw [hcapabilities, ih (fun later hlater => hmatches later (.tail _ hlater))
      (fun later hlater => hvalid later (.tail _ hlater)) (hlimits.least hpeer)]
    · rfl
    · rw [← UInt64.and_assoc, hwithin]

/-- What the ranks of a world gather: an encoding of each hello, which any two ranks accept
    of each other. -/
structure Gathered (hellos : List Hello) (gathered : List (List UInt8)) : Prop where
  encoded : List.Forall₂ (fun hello bytes => encodeHello hello = .ok bytes) hellos gathered
  compatible : ∀ hello ∈ hellos, ∀ peer ∈ hellos, ∃ negotiated,
    hello.validatePeer peer = .ok negotiated

namespace Gathered

variable {hellos : List Hello} {gathered : List (List UInt8)} {hello : Hello}

theorem decoded (h : Gathered hellos gathered) :
    List.Forall₂ (fun bytes peer => decodeHello bytes = .ok peer) gathered hellos := by
  refine (h.encoded.imp ?_).flip
  intro hello bytes hbytes
  obtain ⟨rfl, hsendable⟩ := encodeHello_ok hbytes
  exact decodeHello_helloBytes hsendable

theorem sendable (h : Gathered hellos gathered) (hmem : hello ∈ hellos) :
    hello.limits.Sendable := by
  have hencoded := h.encoded
  clear h
  induction hencoded with
  | nil => cases hmem
  | cons hbytes _ ih =>
    rcases List.mem_cons.mp hmem with rfl | hrest
    · exact (encodeHello_ok hbytes).2
    · exact ih hrest

theorem valid (h : Gathered hellos gathered) (hmem : hello ∈ hellos) : hello.limits.Valid := by
  obtain ⟨negotiated, haccepts⟩ := h.compatible hello hmem hello hmem
  exact (Hello.validatePeer_iff.mp haccepts).2.1

/-- Two ranks fold to the same connection. -/
theorem agree (first second : Hello) (hfirst : first ∈ hellos) (hsecond : second ∈ hellos) :
    (hellos.map Hello.limits).foldl ProtocolLimits.least first.limits =
        (hellos.map Hello.limits).foldl ProtocolLimits.least second.limits ∧
      (hellos.map Hello.capabilities).foldl (· &&& ·) first.capabilities =
        (hellos.map Hello.capabilities).foldl (· &&& ·) second.capabilities :=
  ⟨foldl_eq_of_mem (List.mem_map_of_mem hfirst) (List.mem_map_of_mem hsecond),
    foldl_eq_of_mem (List.mem_map_of_mem hfirst) (List.mem_map_of_mem hsecond)⟩

/-- A rank connects with the minimum of all limits and the intersection of all capabilities. -/
theorem connects (h : Gathered hellos gathered) {rank : Nat} (hrank : rank < hellos.length)
    (hmem : hello ∈ hellos) :
    mpiConnect true rank hellos.length hello gathered =
      .ok (MpiDriver.fresh rank hellos.length hello
        ((hellos.map Hello.limits).foldl ProtocolLimits.least hello.limits)
        ((hellos.map Hello.capabilities).foldl (· &&& ·) hello.capabilities)) := by
  have hmatches : ∀ peer ∈ hellos, hello.Matches peer := by
    intro peer hpeer
    obtain ⟨negotiated, haccepts⟩ := h.compatible hello hmem peer hpeer
    exact (Hello.validatePeer_iff.mp haccepts).1
  have hmember : ¬(hellos.length = 0 ∨ hellos.length ≤ rank) := by omega
  unfold mpiConnect
  rw [if_neg (by decide), ProtocolLimits.valid_iff.mpr (h.valid hmem)]
  simp only [fromProtocol, if_neg hmember, bind, Except.bind, pure, Except.pure]
  rw [encodeHello_of_sendable (h.sendable hmem),
    negotiateAll_eq h.decoded hmatches (fun peer => h.valid) (h.valid hmem) _ UInt64.and_self]

end Gathered

/-- Limits agree on all ranks. Negotiation of valid limits succeeds with valid limits and is
    commutative, associative and idempotent. Every rank of a world connects with the same
    limits and capabilities, and a parcel that is valid under them is read back under the
    limits of every participant. -/
theorem limits_agree :
    (∀ limits peer : ProtocolLimits, limits.validate = .ok limits → peer.validate = .ok peer →
      (∃ agreed : ProtocolLimits, limits.negotiate peer = .ok agreed ∧
        agreed.validate = .ok agreed) ∧
      limits.negotiate peer = peer.negotiate limits ∧
      limits.negotiate limits = .ok limits ∧
      ∀ third : ProtocolLimits, third.validate = .ok third →
        (limits.negotiate peer >>= fun agreed => agreed.negotiate third) =
          (peer.negotiate third >>= fun agreed => limits.negotiate agreed)) ∧
    ∀ hellos gathered, Gathered hellos gathered → ∃ limits capabilities,
      (∀ rank hello, hellos[rank]? = some hello →
        mpiConnect true rank hellos.length hello gathered =
          .ok (MpiDriver.fresh rank hellos.length hello limits capabilities)) ∧
      ∀ parcel : Parcel, hellos ≠ [] → parcel.validate limits = .ok () →
        ∃ bytes, encodeParcel parcel limits = .ok bytes ∧
          ∀ hello ∈ hellos, decodeParcel bytes hello.limits = .ok parcel := by
  constructor
  · intro limits peer hlimits hpeer
    rw [ProtocolLimits.valid_iff] at hlimits hpeer
    refine ⟨⟨_, hlimits.negotiate hpeer, ProtocolLimits.valid_iff.mpr (hlimits.least hpeer)⟩,
      ?_, ?_, ?_⟩
    · rw [hlimits.negotiate hpeer, hpeer.negotiate hlimits, ProtocolLimits.least_comm]
    · rw [hlimits.negotiate hlimits, ProtocolLimits.least_self]
    · intro third hthird
      rw [ProtocolLimits.valid_iff] at hthird
      rw [hlimits.negotiate hpeer, hpeer.negotiate hthird]
      change (limits.least peer).negotiate third = limits.negotiate (peer.least third)
      rw [(hlimits.least hpeer).negotiate hthird, hlimits.negotiate (hpeer.least hthird),
        ProtocolLimits.least_assoc]
  · intro hellos gathered h
    cases hellos with
    | nil =>
      refine ⟨⟨0, 0, 0, 0, 0, 0⟩, 0, ?_, ?_⟩
      · intro rank hello hhello
        cases hhello
      · intro parcel hne
        exact absurd rfl hne
    | cons first rest =>
      have hfirst : first ∈ first :: rest := .head _
      refine ⟨((first :: rest).map Hello.limits).foldl ProtocolLimits.least first.limits,
        ((first :: rest).map Hello.capabilities).foldl (· &&& ·) first.capabilities, ?_, ?_⟩
      · intro rank hello hhello
        obtain ⟨hrank, rfl⟩ := List.getElem?_eq_some_iff.mp hhello
        obtain ⟨hlimits, hcapabilities⟩ :=
          Gathered.agree first _ hfirst (List.getElem_mem hrank)
        rw [hlimits, hcapabilities]
        exact h.connects hrank (List.getElem_mem hrank)
      · intro parcel _ hparcel
        have hall := (Parcel.validate_iff.mp hparcel).of_foldl (h.valid hfirst) (by
          intro other hother
          obtain ⟨peer, hpeer, rfl⟩ := List.mem_map.mp hother
          exact h.valid hpeer)
        have hfits : ∀ hello ∈ first :: rest, parcel.Fits hello.limits := fun hello hhello =>
          hall.2 _ (List.mem_map_of_mem hhello)
        have hcount : parcel.segments.length < 2 ^ 32 :=
          lt_of_le_of_lt hall.1.segments (h.sendable hfirst).segments
        refine ⟨_, encodeParcel_of_fits (Parcel.validate_iff.mp hparcel) hcount, ?_⟩
        intro hello hhello
        exact (decodeParcel_iff hall.1.bound hcount).mpr ⟨rfl, hfits hello hhello⟩

/-- Two ranks with limits of their own gather each other's hello. -/
theorem sample_gathered : Gathered [(sampleConfig 0).hello, (sampleConfig 1).hello]
    [helloBytes (sampleConfig 0).hello, helloBytes (sampleConfig 1).hello] where
  encoded := .cons rfl (.cons rfl .nil)
  compatible := by
    intro hello hhello peer hpeer
    simp only [List.mem_cons, List.not_mem_nil, or_false] at hhello hpeer
    rcases hhello with rfl | rfl <;> rcases hpeer with rfl | rfl <;> exact ⟨_, rfl⟩

/-- The second of them connects. -/
theorem limits_agree_pair : ∃ limits capabilities,
    mpiConnect true 1 2 (sampleConfig 1).hello
        [helloBytes (sampleConfig 0).hello, helloBytes (sampleConfig 1).hello] =
      .ok (MpiDriver.fresh 1 2 (sampleConfig 1).hello limits capabilities) := by
  obtain ⟨limits, capabilities, hconnect, -⟩ := limits_agree.2 _ _ sample_gathered
  exact ⟨limits, capabilities, hconnect 1 _ rfl⟩

end Hataori.Transport
