import Hataori.Pmap.Agreement

/-!
# Owing the root a message

A root that blocks relies on some worker to send without being told anything
more. `Link.Owes` says so of one worker, and every worker whose lane has not
drained does.
-/

namespace Hataori.Pmap

open Hataori.Scheduler

variable {T U : Type}

/-- The worker owes the root a message: one is on its way, or the worker can
    move and, unless it aborts, every move leads to owing one, so that one is
    sent after finitely many moves of its own. -/
inductive Link.Owes (prefetch : Bool) (rank worldSize : Nat) : Link T U → Prop where
  | sent {link : Link T U} (h : link.up ≠ []) : Owes prefetch rank worldSize link
  | soon {link : Link T U}
      (hmove : ∃ action next, link.step prefetch rank worldSize action = some next)
      (hall : ∀ action next, link.step prefetch rank worldSize action = some next →
        next.isAborted = false → Owes prefetch rank worldSize next) :
      Owes prefetch rank worldSize link

/-- The worker's next action is a send. -/
def WorkerPhase.isSending : WorkerPhase T U → Bool
  | .idle => true
  | .reporting _ => true
  | .running _ => true
  | .handing _ _ => true
  | .draining => true
  | _ => false

/-- The worker waits for callbacks. -/
def WorkerPhase.isComputing : WorkerPhase T U → Bool
  | .evaluating _ => true
  | .collecting _ _ => true
  | _ => false

theorem Move.sent_ne_nil {prefetch : Bool} {phase after : WorkerPhase T U}
    {down rest sent : List (Message T U)} (h : Move prefetch phase down after rest sent)
    (hphase : phase.isSending = true) : sent ≠ [] := by
  cases h <;> first | exact List.cons_ne_nil _ _ | cases hphase

theorem Move.sending_of_computing {prefetch : Bool} {phase after : WorkerPhase T U}
    {down rest sent : List (Message T U)} (h : Move prefetch phase down after rest sent)
    (hphase : phase.isComputing = true) : after.isSending = true := by
  cases h <;> first | rfl | cases hphase

theorem Move.busy_of_answered {prefetch : Bool} {phase after : WorkerPhase T U}
    {message : Message T U} {rest sent : List (Message T U)}
    (h : Move prefetch phase [message] after rest sent) (hphase : phase.isAwaiting = true)
    (hmessage : (∃ held, IsTask held message) ∨ message = .stop) :
    after.isSending = true ∨ after.isComputing = true := by
  cases h with
  | receive fault message down =>
    rcases hmessage with ⟨held, itemCount, items, rfl, -⟩ | rfl
    · cases fault with
      | some text => exact Or.inl rfl
      | none =>
        cases prefetch with
        | true => exact Or.inl rfl
        | false => exact Or.inr rfl
    · exact Or.inl rfl
  | receiveNext job fault message down =>
    rcases hmessage with ⟨held, itemCount, items, rfl, -⟩ | rfl
    · cases fault <;> exact Or.inr rfl
    · exact Or.inr rfl
  | _ => cases hphase

section Owing

variable {prefetch : Bool} {rank worldSize : Nat} {link : Link T U}

/-- The shape of the three arguments below: the worker can move, and whatever it
    does owes a message again. -/
theorem owes_of_moves (hmove : ∃ action next, link.step prefetch rank worldSize action = some next)
    (hall : ∀ (next : Link T U) (sent : List (Message T U)), next.up = link.up ++ sent →
      Move prefetch link.phase link.down next.phase next.down sent →
      next.Owes prefetch rank worldSize) :
    link.Owes prefetch rank worldSize := by
  refine .soon hmove fun action next hstep hlive => ?_
  rcases Link.step_move hstep with habort | ⟨sent, hup, hnext, -⟩
  · rw [hlive] at habort
    cases habort
  · exact hall next sent hup hnext

theorem owes_of_sending (h : link.phase.isSending = true) :
    link.Owes prefetch rank worldSize := by
  refine owes_of_moves ⟨.send, ?_⟩ fun next sent hup hmove => .sent ?_
  · unfold Link.step
    revert h
    cases link.phase <;> intro h <;> first | exact ⟨_, rfl⟩ | cases h
  · rw [hup]
    exact List.append_ne_nil_of_right_ne_nil _ (hmove.sent_ne_nil h)

theorem owes_of_computing (h : link.phase.isComputing = true) :
    link.Owes prefetch rank worldSize := by
  refine owes_of_moves ?_ fun next sent _ hmove => owes_of_sending (hmove.sending_of_computing h)
  have hrun : ∀ job : Job T,
      (List.replicate job.items.length (.error "" : Except String U)).length = job.items.length :=
    fun job => List.length_replicate
  unfold Link.step
  cases hphase : link.phase with
  | evaluating job => exact ⟨.evaluate _, _, if_pos (hrun job)⟩
  | collecting job following => exact ⟨.evaluate _, _, if_pos (hrun job)⟩
  | _ => rw [hphase] at h; cases h

theorem owes_of_answered {message : Message T U} (hwait : link.phase.isAwaiting = true)
    (hdown : link.down = [message])
    (hmessage : (∃ held, IsTask held message) ∨ message = .stop) :
    link.Owes prefetch rank worldSize := by
  refine owes_of_moves ⟨.receive none, ?_⟩ fun next sent _ hmove => ?_
  · unfold Link.step
    rw [hdown]
    revert hwait
    cases link.phase <;> intro hwait <;> first | exact ⟨_, rfl⟩ | cases hwait
  · rw [hdown] at hmove
    rcases hmove.busy_of_answered hwait hmessage with hsend | hcompute
    · exact owes_of_sending hsend
    · exact owes_of_computing hcompute

/-- The worker of every lane that has not drained owes the root a message. -/
theorem Agrees.owes {lane : LaneState} (h : Agrees prefetch lane link.phase link.down link.up)
    (hlane : lane ≠ .drained) : link.Owes prefetch rank worldSize := by
  by_cases hup : link.up = []
  swap
  · exact .sent hup
  rw [hup] at h
  generalize hphase : link.phase = phase at h
  generalize hdown : link.down = down at h
  cases h with
  | idle => exact owes_of_sending (by rw [hphase]; rfl)
  | sentTask htask => exact owes_of_answered (by rw [hphase]; rfl) hdown (Or.inl ⟨_, htask⟩)
  | evaluating hplain hjob => exact owes_of_computing (by rw [hphase]; rfl)
  | reporting houtcome => exact owes_of_sending (by rw [hphase]; rfl)
  | running hprefetch hjob => exact owes_of_sending (by rw [hphase]; rfl)
  | sentNext hprefetch hjob htask =>
    exact owes_of_answered (by rw [hphase]; rfl) hdown (Or.inl ⟨_, htask⟩)
  | sentStop hjob => exact owes_of_answered (by rw [hphase]; rfl) hdown (Or.inr rfl)
  | collecting hprefetch hjob hnext => exact owes_of_computing (by rw [hphase]; rfl)
  | collectingStop hjob => exact owes_of_computing (by rw [hphase]; rfl)
  | handing hprefetch houtcome hnext => exact owes_of_sending (by rw [hphase]; rfl)
  | handingStop houtcome => exact owes_of_sending (by rw [hphase]; rfl)
  | stopSent => exact owes_of_answered (by rw [hphase]; rfl) hdown (Or.inr rfl)
  | draining => exact owes_of_sending (by rw [hphase]; rfl)
  | done => exact absurd rfl hlane

end Owing

end Hataori.Pmap
