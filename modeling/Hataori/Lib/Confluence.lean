import Mathlib.Logic.Basic

/-!
# Runs that all end in the same state

A labelled transition relation in which a label has one outcome and two different labels
commute. If one run of it ends in a terminal state, every run can be continued to that
state, and all of them have the same length.
-/

namespace Lib.Confluence

universe u v

variable {σ : Type u} {α : Type v} {step : σ → α → σ → Prop}

/-- A run and the state it ends in. -/
inductive Run (step : σ → α → σ → Prop) : σ → List α → σ → Prop
  | nil (s : σ) : Run step s [] s
  | cons {s next final : σ} {a : α} {rest : List α} (hstep : step s a next)
      (hrest : Run step next rest final) : Run step s (a :: rest) final

theorem Run.append {s mid final : σ} {first second : List α} (hfirst : Run step s first mid)
    (hsecond : Run step mid second final) : Run step s (first ++ second) final := by
  induction hfirst with
  | nil => exact hsecond
  | cons hstep _ ih => exact .cons hstep (ih hsecond)

/-- What every step keeps holds at the end of every run. -/
theorem Run.invariant {inv : σ → Prop} (hkeeps : ∀ s a next, inv s → step s a next → inv next)
    {s final : σ} {run : List α} (hrun : Run step s run final) (hstart : inv s) : inv final := by
  induction hrun with
  | nil => exact hstart
  | cons hstep _ ih => exact ih (hkeeps _ _ _ hstart hstep)

/-- Some run leads from one state to the other. -/
def Reaches (step : σ → α → σ → Prop) (s final : σ) : Prop := ∃ run, Run step s run final

theorem Reaches.refl (s : σ) : Reaches step s s := ⟨[], .nil s⟩

theorem Reaches.trans {s mid final : σ} (hfirst : Reaches step s mid)
    (hsecond : Reaches step mid final) : Reaches step s final := by
  obtain ⟨first, hfirst⟩ := hfirst
  obtain ⟨second, hsecond⟩ := hsecond
  exact ⟨first ++ second, hfirst.append hsecond⟩

theorem Reaches.single {s final : σ} {a : α} (h : step s a final) : Reaches step s final :=
  ⟨[a], .cons h (.nil final)⟩

/-- No step is enabled. -/
def Terminal (step : σ → α → σ → Prop) (s : σ) : Prop := ∀ a next, ¬step s a next

/-- One outcome for each label, and different labels commute. -/
structure Diamond (step : σ → α → σ → Prop) : Prop where
  deterministic : ∀ {s a t u}, step s a t → step s a u → t = u
  commutes : ∀ {s a b t u}, a ≠ b → step s a t → step s b u → ∃ v, step t b v ∧ step u a v

/-- A step taken first only shortens the rest of a run to a terminal state. -/
theorem Diamond.strip (h : Diamond step) {s next final : σ} {a : α} {run : List α}
    (hterminal : Terminal step final) (hrun : Run step s run final) (hstep : step s a next) :
    ∃ rest, Run step next rest final ∧ rest.length + 1 = run.length := by
  induction hrun generalizing next with
  | nil => exact absurd hstep (hterminal a next)
  | @cons s mid _ b rest hother hrest ih =>
    by_cases hsame : a = b
    · subst hsame
      rw [h.deterministic hstep hother]
      exact ⟨rest, hrest, rfl⟩
    · obtain ⟨joined, hjoined, hmid⟩ := h.commutes hsame hstep hother
      obtain ⟨shorter, hshorter, hlength⟩ := ih hterminal hmid
      exact ⟨b :: shorter, .cons hjoined hshorter, by simp [hlength]⟩

/-- Every run can be continued to the terminal state of one run. -/
theorem Diamond.completes (h : Diamond step) {s reached final : σ} {run other : List α}
    (hterminal : Terminal step final) (hrun : Run step s run final)
    (hother : Run step s other reached) :
    ∃ rest, Run step reached rest final ∧ other.length + rest.length = run.length := by
  induction hother generalizing run with
  | nil => exact ⟨run, hrun, by simp⟩
  | cons hstep _ ih =>
    obtain ⟨rest, hrest, hlength⟩ := h.strip hterminal hrun hstep
    obtain ⟨last, hlast, htotal⟩ := ih hrest
    refine ⟨last, hlast, ?_⟩
    simp only [List.length_cons]
    omega

end Lib.Confluence
