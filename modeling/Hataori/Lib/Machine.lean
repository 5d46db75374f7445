import Mathlib.Logic.Basic

/-!
# Runs of a partial deterministic machine

A machine is a step function `σ → α → Option σ`: an action carries every choice
the environment makes, and `none` says the action is not enabled. A run is a
list of actions, and since every prefix of a run is a run, a property proved at
the end of every run holds in every state reached.
-/

namespace Lib.Machine

universe u v w

variable {σ : Type u} {α : Type v} {β : Type w}

/-- The state after a list of actions, if every one of them was enabled. -/
def exec (step : σ → α → Option σ) : σ → List α → Option σ
  | s, [] => some s
  | s, a :: rest => (step s a).bind fun next => exec step next rest

/-- `cond` holds of every action of the run, in the state it is taken from. -/
def Along (step : σ → α → Option σ) (cond : σ → α → Prop) : σ → List α → Prop
  | _, [] => True
  | s, a :: rest => cond s a ∧ ∀ next, step s a = some next → Along step cond next rest

instance decidableAlong (step : σ → α → Option σ) (cond : σ → α → Prop)
    [∀ s a, Decidable (cond s a)] : ∀ s actions, Decidable (Along step cond s actions)
  | _, [] => .isTrue trivial
  | s, a :: rest =>
    match hstep : step s a with
    | none => decidable_of_iff (cond s a) (by simp [Along, hstep])
    | some next =>
      have : Decidable (Along step cond next rest) := decidableAlong step cond next rest
      decidable_of_iff (cond s a ∧ Along step cond next rest) (by simp [Along, hstep])

@[simp] theorem exec_nil (step : σ → α → Option σ) (s : σ) : exec step s [] = some s := rfl

theorem exec_cons (step : σ → α → Option σ) (s : σ) (a : α) (rest : List α) :
    exec step s (a :: rest) = (step s a).bind fun next => exec step next rest := rfl

theorem exec_cons_some {step : σ → α → Option σ} {s final : σ} {a : α} {rest : List α} :
    exec step s (a :: rest) = some final ↔
      ∃ next, step s a = some next ∧ exec step next rest = some final := by
  rw [exec_cons, Option.bind_eq_some_iff]

theorem exec_append (step : σ → α → Option σ) (s : σ) (first second : List α) :
    exec step s (first ++ second) = (exec step s first).bind fun next => exec step next second := by
  induction first generalizing s with
  | nil => rfl
  | cons a rest ih =>
    simp only [List.cons_append, exec_cons, Option.bind_assoc]
    congr 1
    funext next
    exact ih next

/-- The invariant rule: what holds at the start and is kept by every step whose
    action meets `cond` holds at the end of every run along which `cond` holds. -/
theorem exec_invariant {step : σ → α → Option σ} {cond : σ → α → Prop} (inv : σ → Prop)
    (hstep : ∀ s a next, inv s → cond s a → step s a = some next → inv next)
    {s final : σ} {actions : List α} (hstart : inv s) (hcond : Along step cond s actions)
    (hrun : exec step s actions = some final) : inv final := by
  induction actions generalizing s with
  | nil =>
    cases hrun
    exact hstart
  | cons a rest ih =>
    obtain ⟨next, hnext, hrest⟩ := exec_cons_some.mp hrun
    exact ih (hstep s a next hstart hcond.1 hnext) (hcond.2 next hnext) hrest

/-- The countdown rule: a measure that falls by one with every step counts the steps of a run. -/
theorem exec_countdown {step : σ → α → Option σ} {cond : σ → α → Prop} (inv : σ → Prop)
    (measure : σ → Nat)
    (hstep : ∀ s a next, inv s → cond s a → step s a = some next →
      inv next ∧ measure next + 1 = measure s)
    {s final : σ} {actions : List α} (hstart : inv s) (hcond : Along step cond s actions)
    (hrun : exec step s actions = some final) :
    inv final ∧ measure final + actions.length = measure s := by
  induction actions generalizing s with
  | nil =>
    cases hrun
    exact ⟨hstart, rfl⟩
  | cons a rest ih =>
    obtain ⟨next, hnext, hrest⟩ := exec_cons_some.mp hrun
    obtain ⟨hinv, hfalls⟩ := hstep s a next hstart hcond.1 hnext
    obtain ⟨hfinal, hcount⟩ := ih hinv (hcond.2 next hnext) hrest
    refine ⟨hfinal, ?_⟩
    rw [List.length_cons]
    omega

/-- A run with no condition on its actions. -/
theorem along_true (step : σ → α → Option σ) (s : σ) (actions : List α) :
    Along step (fun _ _ => True) s actions := by
  induction actions generalizing s with
  | nil => trivial
  | cons a rest ih => exact ⟨trivial, fun next _ => ih next⟩

/-- A condition on the actions alone. -/
theorem along_of_forall {cond : α → Prop} {actions : List α} (h : ∀ a ∈ actions, cond a)
    (step : σ → α → Option σ) (s : σ) : Along step (fun _ a => cond a) s actions := by
  induction actions generalizing s with
  | nil => trivial
  | cons a rest ih =>
    exact ⟨h a List.mem_cons_self, fun next _ => ih (fun b hb => h b (List.mem_cons_of_mem a hb)) next⟩

/-- The invariant rule for a machine every step of which keeps the invariant. -/
theorem exec_invariant_all {step : σ → α → Option σ} (inv : σ → Prop)
    (hstep : ∀ s a next, inv s → step s a = some next → inv next)
    {s final : σ} {actions : List α} (hstart : inv s)
    (hrun : exec step s actions = some final) : inv final :=
  exec_invariant inv (fun s a next h _ => hstep s a next h) hstart (along_true step s actions) hrun

/-- What the invariant and the condition give in each state holds all along the run. -/
theorem along_of_invariant {step : σ → α → Option σ} {cond prop : σ → α → Prop} (inv : σ → Prop)
    (hstep : ∀ s a next, inv s → cond s a → step s a = some next → inv next)
    (hprop : ∀ s a, inv s → cond s a → prop s a) {s : σ} {actions : List α} (hstart : inv s)
    (hcond : Along step cond s actions) : Along step prop s actions := by
  induction actions generalizing s with
  | nil => trivial
  | cons a rest ih =>
    refine ⟨hprop s a hstart hcond.1, fun next hnext => ?_⟩
    exact ih (hstep s a next hstart hcond.1 hnext) (hcond.2 next hnext)

/-- Two conditions that agree in every state the invariant allows agree along every run. -/
theorem along_iff {step : σ → α → Option σ} {cond prop : σ → α → Prop} (inv : σ → Prop)
    (hiff : ∀ s a, inv s → (cond s a ↔ prop s a))
    (hstep : ∀ s a next, inv s → prop s a → step s a = some next → inv next)
    {s : σ} (hstart : inv s) (actions : List α) :
    Along step cond s actions ↔ Along step prop s actions := by
  induction actions generalizing s with
  | nil => exact Iff.rfl
  | cons a rest ih =>
    rw [Along, Along, hiff s a hstart]
    refine and_congr_right fun hprop => forall_congr' fun next => ?_
    exact imp_congr_right fun hnext => ih (hstep s a next hstart hprop hnext)

/-! ## What a run writes down -/

/-- The notes of a run in order, each taken in the state its action starts from. -/
def journal (step : σ → α → Option σ) (note : σ → α → List β) : σ → List α → List β
  | _, [] => []
  | s, a :: rest =>
    note s a ++ ((step s a).map fun next => journal step note next rest).getD []

theorem journal_cons {step : σ → α → Option σ} {s next : σ} {a : α} (note : σ → α → List β)
    (rest : List α) (h : step s a = some next) :
    journal step note s (a :: rest) = note s a ++ journal step note next rest := by
  rw [journal, h]
  rfl

theorem journal_append {step : σ → α → Option σ} {s mid : σ} {first : List α}
    (note : σ → α → List β) (second : List α) (h : exec step s first = some mid) :
    journal step note s (first ++ second) =
      journal step note s first ++ journal step note mid second := by
  induction first generalizing s with
  | nil =>
    cases h
    rfl
  | cons a rest ih =>
    obtain ⟨next, hnext, hrest⟩ := exec_cons_some.mp h
    rw [List.cons_append, journal_cons note _ hnext, journal_cons note _ hnext, ih hrest,
      List.append_assoc]

/-- The invariant rule for a state together with the notes taken so far. -/
theorem exec_journal {step : σ → α → Option σ} {cond : σ → α → Prop} {note : σ → α → List β}
    (inv : σ → List β → Prop)
    (hstep : ∀ s log a next, inv s log → cond s a → step s a = some next →
      inv next (log ++ note s a))
    {s final : σ} {log : List β} {actions : List α} (hstart : inv s log)
    (hcond : Along step cond s actions) (hrun : exec step s actions = some final) :
    inv final (log ++ journal step note s actions) := by
  induction actions generalizing s log with
  | nil =>
    cases hrun
    rw [journal, List.append_nil]
    exact hstart
  | cons a rest ih =>
    obtain ⟨next, hnext, hrest⟩ := exec_cons_some.mp hrun
    rw [journal_cons note rest hnext, ← List.append_assoc]
    exact ih (hstep s log a next hstart hcond.1 hnext) (hcond.2 next hnext) hrest

/-- What holds of every note of a run holds of each action's own notes. -/
theorem along_of_journal {step : σ → α → Option σ} {note : σ → α → List β} {p : β → Prop} {s : σ}
    {actions : List α} (h : ∀ entry ∈ journal step note s actions, p entry) :
    Along step (fun s a => ∀ entry ∈ note s a, p entry) s actions := by
  induction actions generalizing s with
  | nil => trivial
  | cons a rest ih =>
    refine ⟨fun entry hmem => h entry (List.mem_append_left _ hmem), fun next hnext => ih ?_⟩
    rw [journal_cons note rest hnext] at h
    exact fun entry hmem => h entry (List.mem_append_right _ hmem)

/-- What holds of each action's own notes holds of every note of the run. -/
theorem journal_of_along {step : σ → α → Option σ} {note : σ → α → List β} {p : β → Prop} {s : σ}
    {actions : List α} (h : Along step (fun s a => ∀ entry ∈ note s a, p entry) s actions) :
    ∀ entry ∈ journal step note s actions, p entry := by
  induction actions generalizing s with
  | nil =>
    intro entry hentry
    cases hentry
  | cons a rest ih =>
    intro entry hentry
    rw [journal, List.mem_append] at hentry
    rcases hentry with hown | hlater
    · exact h.1 entry hown
    · cases hnext : step s a with
      | none =>
        rw [hnext] at hlater
        cases hlater
      | some next =>
        rw [hnext] at hlater
        exact ih (h.2 next hnext) entry hlater

end Lib.Machine
