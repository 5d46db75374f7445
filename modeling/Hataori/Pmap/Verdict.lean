import Hataori.Lib.Bytes
import Hataori.Pmap.Values

/-!
# The end of a call

`convergence` and `broadcast_error` of `src/src/pmap.rs`, and what `pmap`
returns on each rank. The ranks agree on the smallest key, the rank that key
names owns it, and without a key the root has every result.
-/

namespace Hataori.Pmap

open Hataori.Scheduler Hataori.Scheduler.Coordinator Lib.Maps Lib.Machine

variable {T U : Type}

/-- `PmapErrorKind::from_code`. -/
def PmapErrorKind.fromCode (code : Int) : Option PmapErrorKind :=
  if code = 0 then some .reentrant
  else if code = 1 then some .preflight
  else if code = 2 then some .user
  else if code = 3 then some .wire
  else if code = 4 then some .protocol
  else none

theorem PmapErrorKind.fromCode_code (kind : PmapErrorKind) :
    PmapErrorKind.fromCode kind.code = some kind := by
  cases kind <;> rfl

/-- `convergence`: the minimum of the ranks' keys. `NO_ERROR_KEY` is the largest
    key, so it may stand for the minimum of no keys. -/
def convergence (worldSize : Nat) (localKey : Nat → Nat) : Nat :=
  (List.range worldSize).foldr (fun rank least => min (localKey rank) least) noErrorKey

/-- `winner_local` of `broadcast_error` on one rank. -/
def winnerLocal (worldSize selected rank : Nat) (held : Nat × Option LocalError) :
    Except String (Option LocalError) :=
  if rank = selected % worldSize then
    if held.1 = selected then .ok held.2 else .error "winner does not own selected error"
  else .ok none

/-- The part of `broadcast_error` from the broadcast of the winner's kind on,
    `sent` being its `winner_local`. -/
def receiveError (sent : Option LocalError) : Except String (Option LocalError) :=
  let kind := (sent.map fun error => error.1.code).getD PmapErrorKind.protocol.code
  let message := (sent.map fun error => error.2.toByteArray).getD ByteArray.empty
  if 2 ^ 31 ≤ message.size then .error "error message length overflow"
  else if maxErrorMessageBytes < message.size then
    .error "invalid broadcast error message length"
  else
    match PmapErrorKind.fromCode kind, String.fromUTF8? message with
    | none, _ => .error "invalid error kind"
    | some _, none => .error "invalid utf-8 sequence"
    | some kind, some message => .ok (some (kind, message))

/-- `broadcast_error` as `rank` leaves it. A broadcast gives every rank the
    winner's value: its kind, the selected key, which all ranks share, and the
    bytes of its message. A winner that leaves early aborts the ranks that wait
    for its broadcast. -/
def broadcastError (worldSize : Nat) (locals : Nat → Nat × Option LocalError)
    (selected rank : Nat) : Except String (Option LocalError) :=
  if selected = noErrorKey then .ok none
  else if worldSize = 0 then .error "invalid selected error key"
  else
    let winner := selected % worldSize
    match winnerLocal worldSize selected rank (locals rank),
        winnerLocal worldSize selected winner (locals winner) with
    | .error error, _ => .error error
    | .ok _, .error error => .error error
    | .ok _, .ok sent => receiveError sent

/-- What `pmap` returns on a rank, or that the rank aborts. -/
inductive Verdict (U : Type) where
  | returns (results : Option (List U))
  | fails (kind : PmapErrorKind) (key : Nat) (message : String)
  | aborts
  deriving DecidableEq, Repr

namespace System

/-- The key all ranks select. -/
def selected (call : Call T) (s : System T U) : Nat :=
  convergence call.worldSize fun rank => (s.blame call rank).1

/-- The end of `pmap` on `rank`, with the results the root left its loop with. -/
def verdict (call : Call T) (s : System T U) (results : List U) (rank : Nat) : Verdict U :=
  match broadcastError call.worldSize (s.blame call) (s.selected call) rank with
  | .error _ => .aborts
  | .ok (some (kind, message)) => .fails kind (s.selected call) message
  | .ok none => .returns (if rank = call.rootRank then some results else none)

end System

/-! ## The selected key -/

theorem foldr_min_le (localKey : Nat → Nat) {ranks : List Nat} {rank : Nat} (h : rank ∈ ranks) :
    ranks.foldr (fun rank least => min (localKey rank) least) noErrorKey ≤ localKey rank := by
  induction ranks with
  | nil => cases h
  | cons first rest ih =>
    rw [List.foldr_cons]
    rcases List.mem_cons.mp h with rfl | hrest
    · exact Nat.min_le_left _ _
    · exact le_trans (Nat.min_le_right _ _) (ih hrest)

theorem foldr_min_mem (localKey : Nat → Nat) (ranks : List Nat) :
    ranks.foldr (fun rank least => min (localKey rank) least) noErrorKey = noErrorKey ∨
      ∃ rank ∈ ranks,
        ranks.foldr (fun rank least => min (localKey rank) least) noErrorKey = localKey rank := by
  induction ranks with
  | nil => exact Or.inl rfl
  | cons first rest ih =>
    rw [List.foldr_cons]
    rcases Nat.le_total (localKey first)
        (rest.foldr (fun rank least => min (localKey rank) least) noErrorKey) with hle | hle
    · exact Or.inr ⟨first, List.mem_cons_self, Nat.min_eq_left hle⟩
    · rw [Nat.min_eq_right hle]
      exact ih.imp id fun ⟨rank, hmem, heq⟩ => ⟨rank, List.mem_cons_of_mem _ hmem, heq⟩

theorem convergence_le {worldSize rank : Nat} (localKey : Nat → Nat) (h : rank < worldSize) :
    convergence worldSize localKey ≤ localKey rank :=
  foldr_min_le localKey (List.mem_range.mpr h)

theorem convergence_owned (worldSize : Nat) (localKey : Nat → Nat) :
    convergence worldSize localKey = noErrorKey ∨
      ∃ rank < worldSize, convergence worldSize localKey = localKey rank := by
  refine (foldr_min_mem localKey (List.range worldSize)).imp id ?_
  rintro ⟨rank, hmem, heq⟩
  exact ⟨rank, List.mem_range.mp hmem, heq⟩

/-- A key names the rank that recorded it. -/
theorem Failure.key_mod {failure : Failure} {rank worldSize key : Nat}
    (h : failure.key rank worldSize = some key) :
    rank < worldSize ∧ key < noErrorKey ∧ key % worldSize = rank := by
  obtain ⟨hrank, hbound, rfl⟩ := errorKey_some h
  refine ⟨hrank, hbound, ?_⟩
  rw [Nat.add_comm, Nat.add_mul_mod_self_right]
  exact Nat.mod_eq_of_lt hrank

section Booking

variable {call : Call T} {s : System T U} {log : List (Nat × Failure)}

theorem Booked.key_lt (h : Booked call s log) {rank : Nat} {failure : Failure}
    (hmem : (rank, failure) ∈ log) : (s.blame call rank).1 < noErrorKey := by
  obtain ⟨key, hkey⟩ := h.keyed rank failure hmem
  have hle := h.least rank failure key hmem hkey
  have hbound := (Failure.key_mod hkey).2.1
  omega

/-- A rank that holds a key owns it. -/
theorem Booked.blame_mod (h : Booked call s log) (rank : Nat)
    (hkey : (s.blame call rank).1 ≠ noErrorKey) :
    (s.blame call rank).1 < noErrorKey ∧ (s.blame call rank).1 % call.worldSize = rank := by
  rcases h.held rank with hnone | ⟨failure, -, hheld⟩
  · rw [hnone] at hkey
    exact absurd rfl hkey
  · exact (Failure.key_mod hheld).2

/-- The minimum names the one rank that holds it. -/
theorem Booked.selected_owner (h : Booked call s log) (hselected : s.selected call ≠ noErrorKey) :
    s.selected call % call.worldSize < call.worldSize ∧
      ∀ rank, (s.blame call rank).1 = s.selected call ↔
        rank = s.selected call % call.worldSize := by
  obtain ⟨owner, hrank, howner⟩ :=
    (convergence_owned call.worldSize fun rank => (s.blame call rank).1).resolve_left hselected
  change s.selected call = (s.blame call owner).1 at howner
  have hname : ∀ rank, (s.blame call rank).1 = s.selected call →
      rank = s.selected call % call.worldSize := by
    intro rank heq
    have hmod := (h.blame_mod rank (by rw [heq]; exact hselected)).2
    rw [heq] at hmod
    exact hmod.symm
  have hthis := hname owner howner.symm
  refine ⟨by rw [← hthis]; exact hrank, fun rank => ⟨hname rank, fun heq => ?_⟩⟩
  rw [heq, ← hthis]
  exact howner.symm

end Booking

/-! ## The broadcast -/

/-- When the winner owns the selected key every rank receives what it holds. -/
theorem broadcastError_owned {worldSize selected : Nat} {locals : Nat → Nat × Option LocalError}
    (hselected : selected ≠ noErrorKey) (hworld : 0 < worldSize)
    (howner : (locals (selected % worldSize)).1 = selected) (rank : Nat) :
    broadcastError worldSize locals selected rank =
      receiveError (locals (selected % worldSize)).2 := by
  have hwinner : winnerLocal worldSize selected (selected % worldSize)
      (locals (selected % worldSize)) = .ok (locals (selected % worldSize)).2 := by
    rw [winnerLocal, if_pos rfl, if_pos howner]
  have hrank : ∃ own, winnerLocal worldSize selected rank (locals rank) = .ok own := by
    by_cases heq : rank = selected % worldSize
    · exact ⟨_, heq ▸ hwinner⟩
    · exact ⟨none, by rw [winnerLocal, if_neg heq]⟩
  obtain ⟨own, hown⟩ := hrank
  unfold broadcastError
  rw [if_neg hselected, if_neg (by omega)]
  simp only [hown, hwinner]

/-- A received error is the one the winner holds; a winner without an error text
    stands for a protocol error. -/
theorem receiveError_ok {sent received : Option LocalError}
    (h : receiveError sent = .ok received) :
    received = some (sent.getD (.protocol, "")) := by
  unfold receiveError at h
  dsimp only at h
  split at h
  · cases h
  split at h
  · cases h
  cases sent with
  | none =>
    have hempty : String.fromUTF8? ByteArray.empty = some "" := Lib.Bytes.fromUTF8?_toByteArray ""
    simp only [Option.map_none, Option.getD_none, PmapErrorKind.fromCode_code, hempty,
      Except.ok.injEq] at h
    exact h.symm
  | some error =>
    simp only [Option.map_some, Option.getD_some, PmapErrorKind.fromCode_code,
      Lib.Bytes.fromUTF8?_toByteArray, Except.ok.injEq] at h
    exact h.symm

/-! ## The ranks agree -/

section Ending

variable {call : Call T} {s : System T U} {log : List (Nat × Failure)}

/-- Without a selected key every rank returns, the root with its results. -/
theorem System.verdict_none (results : List U) (rank : Nat)
    (h : s.selected call = noErrorKey) :
    s.verdict call results rank =
      .returns (if rank = call.rootRank then some results else none) := by
  unfold System.verdict broadcastError
  rw [if_pos h]

/-- With a selected key every rank reports what its owner holds, or aborts. -/
theorem Booked.verdict_some (h : Booked call s log) (hselected : s.selected call ≠ noErrorKey)
    (results : List U) (rank : Nat) :
    s.verdict call results rank =
      match receiveError (s.blame call (s.selected call % call.worldSize)).2 with
      | .error _ => .aborts
      | .ok (some (kind, message)) => .fails kind (s.selected call) message
      | .ok none => .returns (if rank = call.rootRank then some results else none) := by
  obtain ⟨-, howner⟩ := h.selected_owner hselected
  unfold System.verdict
  rw [broadcastError_owned hselected (Nat.zero_lt_of_lt call.rootInWorld) ((howner _).mpr rfl) rank]

theorem Booked.owner_leaves (h : Booked call s log) (rank : Nat) :
    broadcastError call.worldSize (s.blame call) (s.selected call) rank ≠
      .error "winner does not own selected error" := by
  by_cases hselected : s.selected call = noErrorKey
  · unfold broadcastError
    rw [if_pos hselected]
    exact fun heq => by cases heq
  · obtain ⟨-, howner⟩ := h.selected_owner hselected
    rw [broadcastError_owned hselected (Nat.zero_lt_of_lt call.rootInWorld) ((howner _).mpr rfl)]
    generalize (s.blame call (s.selected call % call.worldSize)).2 = sent
    intro heq
    unfold receiveError at heq
    dsimp only at heq
    split at heq
    · simp at heq
    · split at heq
      · simp at heq
      · split at heq <;> simp at heq

end Ending

/-- Every rank leaves the call with the same result. The selected key is the
    smallest key of any rank and its owner is the rank it names, so no rank sees
    a winner that does not own it; a failed coordinator leaves a key with some
    rank. If no rank aborts then either all ranks see no error and the root
    returns a value for every item, in order, or all ranks return the same kind,
    key and message. -/
theorem error_agreement (call : Call T) :
    ∃ start : System T U, System.start call = .ok start ∧
      ∀ actions s results, exec (System.step call) start actions = some s →
        s.root.phase = .exited results →
        (∀ rank link, s.links.lookup rank = some link → link.phase = .done) ∧
        (∀ rank < call.worldSize, s.selected call ≤ (s.blame call rank).1) ∧
        (s.selected call ≠ noErrorKey →
          ∀ rank < call.worldSize, (s.blame call rank).1 = s.selected call ↔
            rank = s.selected call % call.worldSize) ∧
        (∀ rank < call.worldSize,
          broadcastError call.worldSize (s.blame call) (s.selected call) rank ≠
            .error "winner does not own selected error") ∧
        (s.root.scheduler.failed = true →
          ∃ rank < call.worldSize, (s.blame call rank).1 < noErrorKey) ∧
        ((∀ rank < call.worldSize, s.verdict call results rank ≠ .aborts) →
          ((∀ rank < call.worldSize, s.verdict call results rank =
              .returns (if rank = call.rootRank then some results else none)) ∧
            results.length = call.items.length ∧
            ∀ index value, results[index]? = some value →
              Returned call (start.callbacks call actions) index value) ∨
          ∃ kind message, ∀ rank < call.worldSize,
            s.verdict call results rank = .fails kind (s.selected call) message) := by
  obtain ⟨start, hstart, hlive⟩ := start_live (U := U) call
  refine ⟨start, hstart, fun actions s results hrun hexit => ?_⟩
  obtain ⟨hsafe, hbooked⟩ := run_booked hstart hrun
  have hs : Live call s := hsafe.resolve_left fun habort => habort.2.1 results hexit
  have hbook := hbooked hs.not_aborted
  have hfinished := hs.phase
  simp only [PhaseOk, hexit] at hfinished
  have hfailed : s.root.scheduler.failed = true →
      ∃ rank < call.worldSize, (s.blame call rank).1 < noErrorKey := by
    intro hfail
    obtain ⟨⟨rank, failure⟩, hmem⟩ := hbook.failed hfail
    obtain ⟨key, hkey⟩ := hbook.keyed rank failure hmem
    exact ⟨rank, (Failure.key_mod hkey).1, hbook.key_lt hmem⟩
  refine ⟨fun rank link hlink => (hs.toCore.drained_of_finished hfinished hlink).1,
    fun rank hrank => convergence_le _ hrank,
    fun hselected rank _ => (hbook.selected_owner hselected).2 rank,
    fun rank _ => hbook.owner_leaves rank, hfailed, fun hnone => ?_⟩
  by_cases hselected : s.selected call = noErrorKey
  · left
    refine ⟨fun rank _ => s.verdict_none results rank hselected,
      exited_results hstart hrun hexit ?_⟩
    -- a failed coordinator would leave some rank a key below the minimum
    by_contra hfail
    obtain ⟨rank, hrank, hlt⟩ := hfailed (by simpa using hfail)
    have hle : s.selected call ≤ (s.blame call rank).1 := convergence_le _ hrank
    rw [hselected] at hle
    omega
  · right
    have hverdict := fun rank => hbook.verdict_some hselected results rank
    have hroot := hnone call.rootRank call.rootInWorld
    rw [hverdict] at hroot
    cases hsent : receiveError (s.blame call (s.selected call % call.worldSize)).2 with
    | error error =>
      rw [hsent] at hroot
      exact absurd rfl hroot
    | ok received =>
      rw [hsent] at hverdict
      have heq := receiveError_ok hsent
      subst heq
      exact ⟨_, _, fun rank _ => hverdict rank⟩

/-- Three items of one batch each, one worker and the root. -/
def failingCall : Call Nat where
  items := [10, 20, 30]
  itemsBound := by decide
  batchSize := sampleCall.batchSize
  worldSize := 2
  rootRank := 0
  rootInWorld := sampleCall.rootInWorld
  hybrid := false
  prefetch := false
  prefetchHybrid := sampleCall.prefetchHybrid

/-- The root fails on the second item while the worker computes the first; the
    worker's result reaches the root with `fault` and the run is wound up. -/
def failingActions (fault : Option String) : List (Action Nat) :=
  [.root .next, .worker 1 .send, .root (.serve 1 none), .root .probeNone, .root .next,
    .root .probeNone, .root (.compute [.error "bad"]), .worker 1 (.receive none),
    .worker 1 (.evaluate [.ok 11]), .worker 1 .send, .root (.receive 1 fault), .worker 1 .send,
    .root .next, .root (.serve 1 none), .worker 1 (.receive none), .worker 1 .send,
    .root (.serve 1 none), .root .probeNone, .root .next, .root .probeNone, .root .next]

/-- Two runs in which no rank aborts. In that of `sampleActions` both ranks return, and the
    result is what the callback returned for the item; in that of `failingActions` both fail
    with the kind, the key and the message of the root's callback. -/
theorem error_agreement_sample :
    (∃ start s : System Nat Nat, System.start sampleCall = .ok start ∧
      exec (System.step sampleCall) start sampleActions = some s ∧
      s.root.phase = .exited [6] ∧
      (∀ rank < 2, s.verdict sampleCall [6] rank =
        .returns (if rank = 0 then some [6] else none)) ∧
      ∀ index value, [6][index]? = some value →
        Returned sampleCall (start.callbacks sampleCall sampleActions) index value) ∧
    ∃ start s : System Nat Nat, System.start failingCall = .ok start ∧
      exec (System.step failingCall) start (failingActions none) = some s ∧
      s.root.phase = .exited [] ∧
      ∃ kind message, ∀ rank < 2, s.verdict failingCall [] rank = .fails kind 8 message := by
  constructor
  · obtain ⟨start, hstart, hrun⟩ := error_agreement (U := Nat) sampleCall
    obtain ⟨s, hs, hphase, hselected⟩ : ∃ s : System Nat Nat,
        exec (System.step sampleCall) start sampleActions = some s ∧ s.root.phase = .exited [6] ∧
          s.selected sampleCall = noErrorKey := by
      have hsame : System.start sampleCall = .ok (_ : System Nat Nat) := rfl
      cases hstart.symm.trans hsame
      exact ⟨_, rfl, rfl, rfl⟩
    have hagree := (hrun sampleActions s [6] hs hphase).2.2.2.2.2
    have hreturns := fun rank => s.verdict_none [6] rank hselected
    have hgood : ∀ rank < sampleCall.worldSize, s.verdict sampleCall [6] rank ≠ .aborts := by
      intro rank _ habort
      rw [hreturns] at habort
      cases habort
    refine ⟨start, s, hstart, hs, hphase, ?_⟩
    rcases hagree hgood with h | hfails
    · exact ⟨h.1, h.2.2⟩
    · obtain ⟨kind, message, hall⟩ := hfails
      have hroot := hall 0 (by decide)
      rw [hreturns] at hroot
      cases hroot
  · obtain ⟨start, hstart, hrun⟩ := error_agreement (U := Nat) failingCall
    obtain ⟨s, hs, hphase, hselected, hgood⟩ : ∃ s : System Nat Nat,
        exec (System.step failingCall) start (failingActions none) = some s ∧
          s.root.phase = .exited [] ∧ s.selected failingCall = 8 ∧
            ∀ rank < 2, s.verdict failingCall [] rank ≠ .aborts := by
      have hsame : System.start failingCall = .ok (_ : System Nat Nat) := rfl
      cases hstart.symm.trans hsame
      exact ⟨_, rfl, rfl, rfl, by decide⟩
    refine ⟨start, s, hstart, hs, hphase, ?_⟩
    rcases (hrun (failingActions none) s [] hs hphase).2.2.2.2.2 hgood with h | hfails
    · exact absurd h.2.1 (by decide)
    · rw [hselected] at hfails
      exact hfails

/-! ## The error a key names -/

/-- The rank's text is that of a failure recorded under the rank's key, the
    smallest it recorded; without a failure it has neither. -/
def Named (call : Call T) (s : System T U) (log : List (Nat × Failure)) (rank : Nat) : Prop :=
  (∀ failure, (rank, failure) ∉ log) ∧ s.blame call rank = (noErrorKey, none) ∨
    ∃ failure key, (rank, failure) ∈ log ∧ failure.key rank call.worldSize = some key ∧
      s.blame call rank = (key, some failure.error) ∧
      ∀ other found, (rank, other) ∈ log → other.key rank call.worldSize = some found → key ≤ found

/-- A failure recorded where the text is overwritten comes with no larger key
    than the rank holds, or with the text it holds already. -/
def InOrder (call : Call T) (s : System T U) (action : Action U) : Prop :=
  match s.failure call action with
  | none => True
  | some (reporter, failure) =>
    ∀ key ∈ failure.key reporter call.worldSize, call.overwrites reporter = true →
      key ≤ (s.blame call reporter).1 ∨ (s.blame call reporter).2 = some failure.error

instance (call : Call T) (s : System T U) (action : Action U) :
    Decidable (InOrder call s action) :=
  match hfailure : s.failure call action with
  | none => .isTrue (by rw [InOrder, hfailure]; trivial)
  | some (reporter, failure) =>
    decidable_of_iff (∀ key ∈ failure.key reporter call.worldSize,
      call.overwrites reporter = true →
        key ≤ (s.blame call reporter).1 ∨ (s.blame call reporter).2 = some failure.error)
      (by rw [InOrder, hfailure])

/-- `Named` without the minimum, which the journal keeps. -/
def Worded (call : Call T) (s : System T U) (log : List (Nat × Failure)) : Prop :=
  ∀ rank, s.blame call rank = (noErrorKey, none) ∨
    ∃ failure key, (rank, failure) ∈ log ∧ failure.key rank call.worldSize = some key ∧
      s.blame call rank = (key, some failure.error)

theorem recordBlame_cases {overwrites : Bool} {blame : Nat × Option LocalError} {key : Nat}
    {error : LocalError}
    (h : overwrites = true → key ≤ blame.1 ∨ blame.2 = some error) :
    recordBlame overwrites blame key error = (key, some error) ∨
      recordBlame overwrites blame key error = blame := by
  unfold recordBlame
  cases overwrites with
  | false =>
    simp only [Bool.false_eq_true, if_false]
    split
    · exact Or.inl rfl
    · exact Or.inr rfl
  | true =>
    simp only [if_true]
    rcases Nat.le_total key blame.1 with hle | hle
    · left
      rw [Nat.min_eq_right hle]
    · rw [Nat.min_eq_left hle]
      rcases h rfl with hsmaller | hsame
      · left
        rw [Nat.le_antisymm hle hsmaller]
      · right
        rw [← hsame]

theorem Worded.step {call : Call T} {s next : System T U} {log : List (Nat × Failure)}
    {action : Action U} (h : Worded call s log) (hblames : Blames call s action next)
    (horder : InOrder call s action) :
    Worded call next (log ++ (s.failure call action).toList) := by
  have kept : ∀ {rank : Nat}, next.blame call rank = s.blame call rank →
      next.blame call rank = (noErrorKey, none) ∨
        ∃ failure key, (rank, failure) ∈ log ++ (s.failure call action).toList ∧
          failure.key rank call.worldSize = some key ∧
          next.blame call rank = (key, some failure.error) := by
    intro rank hsame
    rw [hsame]
    refine (h rank).imp id ?_
    rintro ⟨failure, key, hmem, hkey, hheld⟩
    exact ⟨failure, key, List.mem_append_left _ hmem, hkey, hheld⟩
  intro rank
  unfold Blames at hblames
  cases hfailure : s.failure call action with
  | none =>
    rw [hfailure] at hblames kept
    exact kept (hblames rank)
  | some entry =>
    obtain ⟨reporter, failure⟩ := entry
    rw [hfailure] at hblames kept
    obtain ⟨key, hkey, hreporter, hothers⟩ := hblames
    by_cases hrank : rank = reporter
    · subst hrank
      unfold InOrder at horder
      rw [hfailure] at horder
      rcases recordBlame_cases (horder key hkey) with hnew | hold
      · rw [hnew] at hreporter
        exact Or.inr ⟨failure, key, List.mem_append_right _ (List.mem_singleton_self _), hkey,
          hreporter⟩
      · rw [hold] at hreporter
        exact kept hreporter
    · exact kept (hothers rank hrank)

theorem Booked.named {call : Call T} {s : System T U} {log : List (Nat × Failure)}
    (h : Booked call s log) (hworded : Worded call s log) (rank : Nat) : Named call s log rank := by
  rcases hworded rank with hnone | ⟨failure, key, hmem, hkey, hheld⟩
  · left
    refine ⟨fun failure hmem => ?_, hnone⟩
    have hlt := h.key_lt hmem
    rw [hnone] at hlt
    exact absurd hlt (lt_irrefl _)
  · right
    refine ⟨failure, key, hmem, hkey, hheld, fun other found hother hfound => ?_⟩
    have hle := h.least rank other found hother hfound
    rw [hheld] at hle
    exact hle

theorem Safe.blames {call : Call T} {s next : System T U} {log : List (Nat × Failure)}
    {action : Action U} (hsafe : Safe call s) (hbooked : Booked call s log)
    (hstep : s.step call action = some next) (hlive : next.aborted = false) :
    Blames call s action next := by
  obtain ⟨-, ⟨rank, worker, rfl, hworker⟩ | ⟨root, rfl, hturn⟩⟩ := hsafe.step_cases hstep hlive
  · refine System.workerStep_blames hworker ?_ hlive
    have hlink : (s.links.lookup rank).isSome = true := by
      unfold System.workerStep at hworker
      split at hworker
      · cases hworker
      · rename_i link hlink
        rw [hlink]
        rfl
    exact (Call.mem_remotes.mp ((hbooked.people rank).mp hlink)).2
  · exact hturn.blames

/-- The run lemma of the texts. -/
theorem run_worded {call : Call T} {start s : System T U} {actions : List (Action U)}
    (hstart : System.start call = .ok start)
    (horder : Along (System.step call) (InOrder call) start actions)
    (hrun : exec (System.step call) start actions = some s) (hlive : s.aborted = false) :
    Booked call s (start.failures call actions) ∧ Worded call s (start.failures call actions) := by
  have hfirst : Accounted call start [] ∧ (start.aborted = false → Worded call start []) := by
    refine ⟨⟨start_safe hstart, fun _ => start_booked hstart⟩, fun _ rank => Or.inl ?_⟩
    refine ((start_booked hstart).held rank).resolve_right ?_
    rintro ⟨failure, hmem, -⟩
    cases hmem
  have hlast : Accounted call s (start.failures call actions) ∧
      (s.aborted = false → Worded call s (start.failures call actions)) := by
    refine exec_journal (fun s log => Accounted call s log ∧
      (s.aborted = false → Worded call s log)) ?_ hfirst horder hrun
    rintro s log action next ⟨⟨hsafe, hbooked⟩, hworded⟩ hinorder hstep
    refine ⟨⟨hsafe.step hstep, fun hnext => ?_⟩, fun hnext => ?_⟩
    · obtain ⟨hrunning, -⟩ := hsafe.step_cases hstep hnext
      exact (hbooked hrunning).step hsafe hstep hnext
    · obtain ⟨hrunning, -⟩ := hsafe.step_cases hstep hnext
      exact (hworded hrunning).step (hsafe.blames (hbooked hrunning) hstep hnext) hinorder
  exact ⟨hlast.1.2 hlive, hlast.2 hlive⟩

/-- In every run in which each overwriting rank records its failures in order,
    every rank's text is the one its key names, in every state reached, and the
    error a rank returns is the recorded failure its key encodes. -/
theorem error_named {call : Call T} {start s : System T U} {actions : List (Action U)}
    (hstart : System.start call = .ok start)
    (horder : Along (System.step call) (InOrder call) start actions)
    (hrun : exec (System.step call) start actions = some s) (hlive : s.aborted = false) :
    (∀ rank, Named call s (start.failures call actions) rank) ∧
    ∀ results, s.root.phase = .exited results → ∀ rank kind key message,
      s.verdict call results rank = .fails kind key message →
      ∃ reporter failure, (reporter, failure) ∈ start.failures call actions ∧
        failure.key reporter call.worldSize = some key ∧ failure.error = (kind, message) := by
  obtain ⟨hbooked, hworded⟩ := run_worded hstart horder hrun hlive
  refine ⟨hbooked.named hworded, fun results _ rank kind key message hverdict => ?_⟩
  have hselected : s.selected call ≠ noErrorKey := by
    intro hnone
    rw [System.verdict_none results rank hnone] at hverdict
    cases hverdict
  rw [hbooked.verdict_some hselected] at hverdict
  have howner := ((hbooked.selected_owner hselected).2 _).mpr rfl
  split at hverdict
  · cases hverdict
  · rename_i found text hreceived
    cases hverdict
    rcases hworded (s.selected call % call.worldSize) with hnone | ⟨failure, key, hmem, hkey, hheld⟩
    · rw [hnone] at howner
      exact absurd howner.symm hselected
    · have hsent := receiveError_ok hreceived
      rw [hheld] at hsent howner
      change key = s.selected call at howner
      rw [howner] at hkey
      exact ⟨_, failure, hmem, hkey, (Option.some.inj hsent).symm⟩
  · cases hverdict

/-- When the worker's result decodes, the root's text is that of its callback. -/
theorem error_named_callback :
    ∃ start s : System Nat Nat, System.start failingCall = .ok start ∧
      exec (System.step failingCall) start (failingActions none) = some s ∧
      s.root.phase = .exited [] ∧
      start.failures failingCall (failingActions none) =
        [(0, ⟨1, .callback, (.user, truncateMessage "bad")⟩)] ∧
      ∀ rank, Named failingCall s (start.failures failingCall (failingActions none)) rank :=
  ⟨_, _, rfl, rfl, rfl, rfl, (error_named rfl (by decide) rfl rfl).1⟩

/-- When it does not, the root keeps the key of the callback's failure with the
    text of the decode failure, whose key is larger. -/
theorem error_misnamed :
    ∃ start s : System Nat Nat, System.start failingCall = .ok start ∧
      exec (System.step failingCall) start (failingActions (some "garbled")) = some s ∧
      s.aborted = false ∧ s.root.phase = .exited [] ∧
      start.failures failingCall (failingActions (some "garbled")) =
        [(0, ⟨1, .callback, (.user, truncateMessage "bad")⟩),
          (0, ⟨3, .wireProtocol, (.wire, "garbled")⟩)] ∧
      s.blame failingCall 0 = (8, some (.wire, "garbled")) ∧
      ¬Named failingCall s (start.failures failingCall (failingActions (some "garbled"))) 0 := by
  refine ⟨_, _, rfl, rfl, rfl, rfl, rfl, rfl, ?_⟩
  rintro (⟨hnone, -⟩ | ⟨failure, key, hmem, hkey, hheld, -⟩)
  · exact hnone ⟨1, .callback, (.user, truncateMessage "bad")⟩ List.mem_cons_self
  · change (0, failure) ∈ [(0, (⟨1, .callback, (.user, truncateMessage "bad")⟩ : Failure)),
      (0, ⟨3, .wireProtocol, (.wire, "garbled")⟩)] at hmem
    change (8, some (PmapErrorKind.wire, "garbled")) = (key, some failure.error) at hheld
    simp only [List.mem_cons, Prod.mk.injEq, true_and, List.not_mem_nil, or_false] at hmem
    rcases hmem with rfl | rfl
    · simp at hheld
    · have hkeys : (some 18 : Option Nat) = some key := hkey
      simp only [Option.some.injEq, Prod.mk.injEq] at hkeys hheld
      omega

end Hataori.Pmap
