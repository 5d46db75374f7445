import Mathlib.Data.List.Basic

/-!
# A batch that is sent until something fails

A batch is taken off a queue and its items are sent one after another. The first item that
cannot be sent is put back and the loop ends. Nothing is lost exactly when that item is the
last of the batch.
-/

namespace Lib.Batches

universe u

variable {α : Type u}

/-- The items that are sent, and the one that is put back; `sends` tells how the n-th attempt
    ends. -/
def attempt (sends : Nat → Bool) : Nat → List α → List α × Option α
  | _, [] => ([], none)
  | n, item :: rest =>
    if sends n then (item :: (attempt sends (n + 1) rest).1, (attempt sends (n + 1) rest).2)
    else ([], some item)

variable {sends : Nat → Bool}

theorem attempt_sent {n : Nat} {item : α} (h : sends n = true) (rest : List α) :
    attempt sends n (item :: rest) =
      (item :: (attempt sends (n + 1) rest).1, (attempt sends (n + 1) rest).2) := by
  rw [attempt, if_pos h]

theorem attempt_failed {n : Nat} {item : α} (h : sends n = false) (rest : List α) :
    attempt sends n (item :: rest) = ([], some item) := by
  rw [attempt, h, if_neg Bool.false_ne_true]

/-- What is sent and what is put back make up the batch exactly when no attempt fails before
    the last. -/
theorem attempt_whole_iff (n : Nat) (batch : List α) :
    (attempt sends n batch).1 ++ (attempt sends n batch).2.toList = batch ↔
      ∀ k, k + 1 < batch.length → sends (n + k) = true := by
  induction batch generalizing n with
  | nil => simp [attempt]
  | cons item rest ih =>
    cases hsends : sends n with
    | false =>
      rw [attempt_failed hsends]
      cases rest with
      | nil => simp
      | cons second rest =>
        constructor
        · intro hwhole
          cases hwhole
        · intro hall
          have hfirst := hall 0 (by simp)
          rw [Nat.add_zero, hsends] at hfirst
          cases hfirst
    | true =>
      rw [attempt_sent hsends, List.cons_append, List.cons.injEq, ih (n + 1)]
      simp only [true_and, List.length_cons]
      constructor
      · intro hrest k hk
        cases k with
        | zero => exact hsends
        | succ k =>
          have hlater := hrest k (by omega)
          rwa [Nat.add_assoc, Nat.add_comm 1 k] at hlater
      · intro hall k hk
        have hlater := hall (k + 1) (by omega)
        rwa [Nat.add_comm k 1, ← Nat.add_assoc] at hlater

end Lib.Batches
