import Hataori.Lib.Machine

/-!
# Simulations between machines

The low machine does what the high one does, action by action: `reads` forgets what an action of
the high machine decides and the low one works out. The low machine may also die, which the high
one need not follow.
-/

namespace Lib.Simulation

open Lib.Machine

universe u v w x

variable {σ : Type u} {α : Type v} {τ : Type w} {β : Type x}
  {low : σ → α → Option σ} {high : τ → β → Option τ} {reads : β → α} {rel : σ → τ → Prop}
  {dead : σ → Prop}

/-- In related states the two machines can take the same actions, and the states after a step are
    related again unless the low machine is dead. -/
structure Simulates (low : σ → α → Option σ) (high : τ → β → Option τ) (reads : β → α)
    (rel : σ → τ → Prop) (dead : σ → Prop) : Prop where
  stops : ∀ s a, dead s → low s a = none
  follows : ∀ s t a next, rel s t → low s a = some next →
    ∃ b after, reads b = a ∧ high t b = some after ∧ (dead next ∨ rel next after)
  offers : ∀ s t b after, rel s t → high t b = some after → (low s (reads b)).isSome

/-- Every run of the low machine that does not end dead is a run of the high one. -/
theorem Simulates.run (h : Simulates low high reads rel dead) {s final : σ} {t : τ}
    {actions : List α} (hrel : rel s t) (hrun : exec low s actions = some final) :
    dead final ∨ ∃ choices after, choices.map reads = actions ∧
      exec high t choices = some after ∧ rel final after := by
  induction actions generalizing s t with
  | nil =>
    cases hrun
    exact Or.inr ⟨[], t, rfl, rfl, hrel⟩
  | cons a rest ih =>
    obtain ⟨next, hnext, hrest⟩ := exec_cons_some.mp hrun
    obtain ⟨b, after, hreads, hafter, hdead | hkept⟩ := h.follows s t a next hrel hnext
    · -- a dead machine takes no further step
      cases rest with
      | nil =>
        cases hrest
        exact Or.inl hdead
      | cons a' rest' =>
        obtain ⟨_, hlater, -⟩ := exec_cons_some.mp hrest
        rw [h.stops next a' hdead] at hlater
        cases hlater
    · refine (ih hkept hrest).imp_right ?_
      rintro ⟨choices, last, hmap, hlast, hend⟩
      refine ⟨b :: choices, last, ?_, exec_cons_some.mpr ⟨after, hafter, hlast⟩, hend⟩
      rw [List.map_cons, hreads, hmap]

/-- Related states offer the same actions. -/
theorem Simulates.enabled (h : Simulates low high reads rel dead) {s : σ} {t : τ} (hrel : rel s t)
    (a : α) : (low s a).isSome ↔ ∃ b, reads b = a ∧ (high t b).isSome := by
  constructor
  · intro hsome
    obtain ⟨next, hnext⟩ := Option.isSome_iff_exists.mp hsome
    obtain ⟨b, after, hreads, hafter, -⟩ := h.follows s t a next hrel hnext
    exact ⟨b, hreads, hafter ▸ rfl⟩
  · rintro ⟨b, rfl, hsome⟩
    obtain ⟨after, hafter⟩ := Option.isSome_iff_exists.mp hsome
    exact h.offers s t b after hrel hafter

end Lib.Simulation
