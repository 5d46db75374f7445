import Hataori.Placement.Collectives

/-!
# The ranks of a placement collective end alike

One schedule of the collectives is followed phase by phase; `Lib.Ranks.ends_together` makes
every other schedule end as it does.
-/

namespace Hataori.Placement

open Lib.Ranks Lib.Confluence Hataori.Pmap

variable {n : Nat} {T β ε γ : Type}

/-- A state of the ranks of some calls. -/
abbrev World (n : Nat) (β : Type) :=
  Config (Fin n) (Collective n) Nat (List UInt8) Collective.Data β

/-- One schedule leads from a state to another. -/
abbrev Leads (before after : World n β) : Prop := Reaches (Step Collective.combine) before after

/-! ## Convergence -/

/-- The first rank that failed, and its failure. -/
def firstFailed (failures : Fin n → Option Failure) : Option (Fin n × Failure) :=
  (List.finRange n).findSome? fun rank => (failures rank).map fun failure => (rank, failure)

/-- The error all ranks return for the failures of a phase. -/
def verdict (failures : Fin n → Option Failure) : Option PlacementError :=
  (firstFailed failures).map fun (rank, failure) =>
    .new failure.kind (some rank.val) failure.message

theorem firstFailed_eq_none {failures : Fin n → Option Failure} :
    firstFailed failures = none ↔ ∀ rank, failures rank = none := by
  simp [firstFailed, List.findSome?_eq_none_iff]

theorem firstFailed_eq_some {failures : Fin n → Option Failure} {rank : Fin n} {failure : Failure}
    (h : firstFailed failures = some (rank, failure)) :
    failures rank = some failure ∧ ∀ other, other < rank → failures other = none := by
  obtain ⟨before, found, after, hsplit, hfound, hbefore⟩ := List.findSome?_eq_some_iff.mp h
  obtain ⟨held, hheld, hpair⟩ := Option.map_eq_some_iff.mp hfound
  cases hpair
  refine ⟨hheld, fun other hlt => ?_⟩
  have hsorted : (before ++ rank :: after).Pairwise (· < ·) :=
    hsplit ▸ List.pairwise_lt_finRange n
  have hmem : other ∈ before ++ rank :: after := hsplit ▸ List.mem_finRange other
  rcases List.mem_append.mp hmem with hin | hin
  · simpa using hbefore other hin
  · exfalso
    rcases List.mem_cons.mp hin with rfl | hin
    · exact absurd hlt (lt_irrefl _)
    · have hafter := (List.pairwise_append.mp hsorted).2.1
      exact absurd hlt (not_lt.mpr (List.rel_of_pairwise_cons hafter hin).le)

theorem verdict_eq_none {failures : Fin n → Option Failure} :
    verdict failures = none ↔ ∀ rank, failures rank = none := by
  rw [verdict, Option.map_eq_none_iff, firstFailed_eq_none]

theorem least_eq {values : Fin n → Int} {value : Int} (rank : Fin n) (hrank : values rank = value)
    (hle : ∀ other, value ≤ values other) : Collective.least values = value := by
  have hmin : ((List.finRange n).map values).min? = some value := by
    rw [List.min?_eq_some_iff]
    refine ⟨List.mem_map.mpr ⟨rank, List.mem_finRange rank, hrank⟩, ?_⟩
    intro found hfound
    obtain ⟨other, -, rfl⟩ := List.mem_map.mp hfound
    exact hle other
  rw [Collective.least, hmin]
  rfl

/-- What a rank puts into the first reduction of `converge`. -/
def candidate (rank : Fin n) (failure : Option Failure) : Int :=
  if failure.isSome then rank.val else n

theorem least_candidate_none [NeZero n] {failures : Fin n → Option Failure}
    (h : firstFailed failures = none) :
    Collective.least (fun rank => candidate rank (failures rank)) = n := by
  have hnone := firstFailed_eq_none.mp h
  refine least_eq 0 ?_ fun other => ?_
  · simp [candidate, hnone]
  · simp [candidate, hnone]

theorem least_candidate_some {failures : Fin n → Option Failure} {winner : Fin n}
    {failure : Failure} (h : firstFailed failures = some (winner, failure)) :
    Collective.least (fun rank => candidate rank (failures rank)) = winner.val := by
  obtain ⟨hfailed, hbefore⟩ := firstFailed_eq_some h
  refine least_eq winner ?_ fun other => ?_
  · simp [candidate, hfailed]
  · unfold candidate
    split
    · next hsome =>
      have hle : winner ≤ other := not_lt.mp fun hlt => by simp [hbefore other hlt] at hsome
      exact_mod_cast hle
    · have := winner.isLt
      omega

variable {config : World n β}

/-- All ranks enter a collective. -/
theorem leads_collective (kind : Collective n) (values : Fin n → kind.Data)
    (rest : Fin n → kind.Data → Process n β)
    (h : ∀ rank, config.procs rank =
      (Proc.collective kind (values rank) Proc.done).bind (rest rank)) :
    ∃ after, Leads config after ∧ after.channels = config.channels ∧
      ∀ rank, after.procs rank = rest rank (kind.combine values) :=
  reaches_collective h

theorem processAtRank_val (rank : Fin n) : processAtRank (rank.val : Int) = .done rank := by
  unfold processAtRank
  have := rank.isLt
  rw [dif_pos ⟨by omega, by omega⟩]
  simp

theorem size_ownBytes (isWinner : Bool) (failure : Option Failure) :
    (ownBytes isWinner failure).size ≤ maxErrorMessageBytes := by
  unfold ownBytes
  cases failure with
  | none => simp
  | some failure =>
    cases isWinner with
    | false => simp
    | true =>
      simp only [Option.filter_some, ↓reduceIte, Option.map_some, Option.getD_some,
        String.size_toByteArray]
      exact failure.bounded

/-- The announcement of a rank that failed or is not the winner. -/
theorem announce_eq {rank winner : Fin n} {failure : Option Failure}
    (h : rank = winner → failure.isSome = true) :
    announce rank failure winner.val =
      (broadcastInt winner (ownKind (decide (rank = winner)) failure)).bind fun kind =>
        (broadcastInt winner (ownBytes (decide (rank = winner)) failure).size).bind
          fun (length : Int) =>
          if length < 0 ∨ (maxErrorMessageBytes : Int) < length then .abort
          else (broadcastBytes winner length.toNat
            (if decide (rank = winner) then ownBytes (decide (rank = winner)) failure
              else ⟨Array.replicate length.toNat 0⟩)).bind fun bytes =>
              received winner.val kind bytes := by
  have hsame : decide ((rank.val : Int) = winner.val) = decide (rank = winner) := by
    simp only [Int.natCast_inj, Fin.val_inj]
  have hsize := size_ownBytes (decide (rank = winner)) failure
  unfold announce
  rw [hsame]
  dsimp only
  rw [if_neg, if_neg]
  · rw [processAtRank_val]
    rfl
  · have : maxErrorMessageBytes = 4096 := rfl
    omega
  · rintro ⟨hwinner, hnone⟩
    have hsome := h (of_decide_eq_true hwinner)
    rw [Option.isNone_iff_eq_none] at hnone
    rw [hnone] at hsome
    cases hsome

/-- What the winner has announced is the error of its failure. -/
theorem received_own (winner : Int) (failure : Failure) :
    received winner (ownKind true (some failure)) (ownBytes true (some failure)) =
      (.done (some (.new failure.kind (some winner) failure.message)) :
        Process n (Option PlacementError)) := by
  simp only [received, ownKind, ownBytes, Option.filter_some, ↓reduceIte, Option.map_some,
    Option.getD_some, PlacementErrorKind.fromCode_code]
  unfold String.fromUTF8?
  rw [dif_pos failure.message.isValidUTF8]
  rfl

/-- The three broadcasts of the winner. -/
theorem leads_announce {failures : Fin n → Option Failure} {winner : Fin n} {failure : Failure}
    {rest : Fin n → Option PlacementError → Process n β} (hwinner : failures winner = some failure)
    (h : ∀ rank, config.procs rank =
      (announce rank (failures rank) winner.val).bind (rest rank)) :
    ∃ after, Leads config after ∧ after.channels = config.channels ∧
      ∀ rank, after.procs rank =
        rest rank (some (.new failure.kind (some winner.val) failure.message)) := by
  have hsome : ∀ rank, rank = winner → (failures rank).isSome = true := by
    rintro rank rfl
    rw [hwinner]
    rfl
  obtain ⟨first, hfirst, hfirstChannels, hfirstProcs⟩ := leads_collective
    (.broadcastInt winner) (fun rank => ownKind (decide (rank = winner)) (failures rank)) _
    fun rank => (h rank).trans (by rw [announce_eq (hsome rank), Proc.bind_assoc]; rfl)
  obtain ⟨second, hsecond, hsecondChannels, hsecondProcs⟩ := leads_collective
    (.broadcastInt winner)
    (fun rank => ((ownBytes (decide (rank = winner)) (failures rank)).size : Int)) _
    fun rank => (hfirstProcs rank).trans (by rw [Proc.bind_assoc]; rfl)
  have hlength : ¬(((ownBytes (decide (winner = winner)) (failures winner)).size : Int) < 0 ∨
      (maxErrorMessageBytes : Int) <
        (ownBytes (decide (winner = winner)) (failures winner)).size) := by
    have hsize := size_ownBytes (decide (winner = winner)) (failures winner)
    omega
  obtain ⟨third, hthird, hthirdChannels, hthirdProcs⟩ := leads_collective
    (.broadcastBytes winner
      ((ownBytes (decide (winner = winner)) (failures winner)).size : Int).toNat)
    (fun rank => if decide (rank = winner) then ownBytes (decide (rank = winner)) (failures rank)
      else ⟨Array.replicate
        ((ownBytes (decide (winner = winner)) (failures winner)).size : Int).toNat 0⟩) _
    fun rank => ((hsecondProcs rank).trans
      (congrArg (fun p => Proc.bind p (rest rank)) (if_neg hlength))).trans
        (by rw [Proc.bind_assoc]; rfl)
  refine ⟨third, (hfirst.trans hsecond).trans hthird,
    hthirdChannels.trans (hsecondChannels.trans hfirstChannels), fun rank => ?_⟩
  rw [hthirdProcs rank]
  simp only [Collective.combine, decide_true, ↓reduceIte, hwinner, received_own, Proc.done_bind]

/-- `converge` gives every rank the verdict on the ranks' failures. -/
theorem leads_converge [NeZero n] {failures : Fin n → Option Failure}
    {rest : Fin n → Option PlacementError → Process n β}
    (h : ∀ rank, config.procs rank = (converge rank (failures rank)).bind (rest rank)) :
    ∃ after, Leads config after ∧ after.channels = config.channels ∧
      ∀ rank, after.procs rank = rest rank (verdict failures) := by
  obtain ⟨reduced, hreduced, hchannels, hprocs⟩ := leads_collective .reduceMin
    (fun rank => candidate rank (failures rank)) _
    fun rank => (h rank).trans (by rw [converge, Proc.bind_eq, Proc.bind_assoc]; rfl)
  cases hfirst : firstFailed failures with
  | none =>
    refine ⟨reduced, hreduced, hchannels, fun rank => ?_⟩
    rw [hprocs rank]
    simp only [Collective.combine, least_candidate_none hfirst, ↓reduceIte, Proc.pure_eq,
      Proc.done_bind, verdict, hfirst, Option.map_none]
  | some found =>
    obtain ⟨winner, failure⟩ := found
    have hlt := winner.isLt
    have hannounces : ∀ rank, reduced.procs rank =
        (announce rank (failures rank) winner.val).bind (rest rank) := by
      intro rank
      rw [hprocs rank]
      simp only [Collective.combine, least_candidate_some hfirst]
      rw [if_neg (by omega), if_neg (by omega)]
    obtain ⟨after, hafter, hafterChannels, hafterProcs⟩ :=
      leads_announce (firstFailed_eq_some hfirst).1 hannounces
    refine ⟨after, hreduced.trans hafter, hafterChannels.trans hchannels, fun rank => ?_⟩
    rw [hafterProcs rank]
    simp only [verdict, hfirst, Option.map_some]

/-! ## Preflight -/

/-- What the ranks bring to `preflight`. -/
structure Entry where
  operation : Operation
  root : Int
  localShape : Bool
  isThreadMain : Bool

/-- The failure of each rank in `preflight`. -/
def preflightFailures (entries : Fin n → Entry) (rank : Fin n) : Option Failure :=
  preflightFailure n
    (Collective.least fun other => (entries other).operation.code)
    (Collective.greatest fun other => (entries other).operation.code)
    (Collective.least fun other => (entries other).root)
    (Collective.greatest fun other => (entries other).root)
    (entries rank).root (entries rank).localShape (entries rank).isThreadMain

/-- `preflight` gives every rank the verdict on the failures found in it. -/
theorem leads_preflight [NeZero n] {entries : Fin n → Entry}
    {rest : Fin n → Except PlacementError Unit → Process n β}
    (h : ∀ rank, config.procs rank =
      (preflight rank (entries rank).operation (entries rank).root (entries rank).localShape
        (entries rank).isThreadMain).bind (rest rank)) :
    ∃ after, Leads config after ∧ after.channels = config.channels ∧
      ∀ rank, after.procs rank = rest rank
        (match verdict (preflightFailures entries) with
        | some error => .error error
        | none => .ok ()) := by
  obtain ⟨first, hfirst, hfirstChannels, hfirstProcs⟩ := leads_collective .reduceMin
    (fun rank => (entries rank).operation.code) _
    fun rank => (h rank).trans (by rw [preflight, Proc.bind_eq, Proc.bind_assoc]; rfl)
  obtain ⟨second, hsecond, hsecondChannels, hsecondProcs⟩ := leads_collective .reduceMax
    (fun rank => (entries rank).operation.code) _
    fun rank => (hfirstProcs rank).trans (by rw [Proc.bind_eq, Proc.bind_assoc]; rfl)
  obtain ⟨third, hthird, hthirdChannels, hthirdProcs⟩ := leads_collective .reduceMin
    (fun rank => (entries rank).root) _
    fun rank => (hsecondProcs rank).trans (by rw [Proc.bind_eq, Proc.bind_assoc]; rfl)
  obtain ⟨fourth, hfourth, hfourthChannels, hfourthProcs⟩ := leads_collective .reduceMax
    (fun rank => (entries rank).root) _
    fun rank => (hthirdProcs rank).trans (by rw [Proc.bind_eq, Proc.bind_assoc]; rfl)
  have hconverges : ∀ rank, fourth.procs rank =
      (converge rank (preflightFailures entries rank)).bind fun found =>
        rest rank (match found with
          | some error => .error error
          | none => .ok ()) := by
    intro rank
    rw [hfourthProcs rank, Proc.bind_eq, Proc.bind_assoc]
    congr 1
    funext found
    cases found <;> rfl
  obtain ⟨after, hafter, hafterChannels, hafterProcs⟩ := leads_converge hconverges
  refine ⟨after, (((hfirst.trans hsecond).trans hthird).trans hfourth).trans hafter, ?_,
    hafterProcs⟩
  rw [hafterChannels, hfourthChannels, hthirdChannels, hsecondChannels, hfirstChannels]

theorem least_le (values : Fin n → Int) (rank : Fin n) : Collective.least values ≤ values rank := by
  have hmem : values rank ∈ (List.finRange n).map values :=
    List.mem_map.mpr ⟨rank, List.mem_finRange rank, rfl⟩
  obtain ⟨least, hleast⟩ : ∃ least, ((List.finRange n).map values).min? = some least :=
    Option.ne_none_iff_exists'.mp fun hnone => by
      rw [List.min?_eq_none_iff] at hnone
      rw [hnone] at hmem
      cases hmem
  rw [Collective.least, hleast]
  exact (List.min?_eq_some_iff.mp hleast).2 _ hmem

theorem le_greatest (values : Fin n → Int) (rank : Fin n) :
    values rank ≤ Collective.greatest values := by
  have hmem : values rank ∈ (List.finRange n).map values :=
    List.mem_map.mpr ⟨rank, List.mem_finRange rank, rfl⟩
  obtain ⟨greatest, hgreatest⟩ : ∃ greatest,
      ((List.finRange n).map values).max? = some greatest :=
    Option.ne_none_iff_exists'.mp fun hnone => by
      rw [List.max?_eq_none_iff] at hnone
      rw [hnone] at hmem
      cases hmem
  rw [Collective.greatest, hgreatest]
  exact (List.max?_eq_some_iff.mp hgreatest).2 _ hmem

theorem preflightFailure_eq_none {minOperation maxOperation minRoot maxRoot root : Int}
    {localShape isThreadMain : Bool} (h : preflightFailure n minOperation maxOperation minRoot
      maxRoot root localShape isThreadMain = none) :
    minOperation = maxOperation ∧ minRoot = maxRoot ∧ (0 ≤ root ∧ root < n) ∧
      localShape = true ∧ isThreadMain = true := by
  unfold preflightFailure at h
  split at h
  · cases h
  · split at h
    · cases h
    · split at h
      · cases h
      · split at h
        · cases h
        · split at h
          · cases h
          · next hoperation hroot hrange hshape hmain =>
            refine ⟨not_not.mp hoperation, not_not.mp hroot, by omega, ?_, ?_⟩
            · simpa using hshape
            · simpa using hmain

theorem Operation.code_injective {first second : Operation} (h : first.code = second.code) :
    first = second := by
  cases first <;> cases second <;> simp_all [Operation.code]

/-- Where no rank fails in `preflight`, all ranks entered the same operation with the same
    root, which is one of them. -/
theorem preflight_agrees [NeZero n] {entries : Fin n → Entry}
    (h : ∀ rank, preflightFailures entries rank = none) :
    ∃ (operation : Operation) (root : Fin n), ∀ rank, (entries rank).operation = operation ∧
      (entries rank).root = root.val ∧ (entries rank).localShape = true ∧
      (entries rank).isThreadMain = true := by
  obtain ⟨hoperations, hroots, hrange, -, -⟩ := preflightFailure_eq_none (h 0)
  refine ⟨(entries 0).operation, ⟨(entries 0).root.toNat, by omega⟩, fun rank => ?_⟩
  obtain ⟨-, -, -, hshape, hmain⟩ := preflightFailure_eq_none (h rank)
  refine ⟨Operation.code_injective ?_, ?_, hshape, hmain⟩
  · have hlow := least_le (fun other => (entries other).operation.code)
    have hhigh := le_greatest (fun other => (entries other).operation.code)
    have := hlow rank
    have := hhigh rank
    have := hlow 0
    have := hhigh 0
    omega
  · have hlow := least_le (fun other => (entries other).root)
    have hhigh := le_greatest (fun other => (entries other).root)
    have := hlow rank
    have := hhigh rank
    have := hlow 0
    have := hhigh 0
    dsimp only
    omega

end Hataori.Placement
