import Hataori.Lib.Maps
import Hataori.Runtime.Error

/-!
# Domains

`DomainRegistry` of `hataori-runtime/src/domain.rs`: each domain has a bounded queue in
front of its workers. The workers take jobs off a queue whenever they like, so the two
operations here also get the number of jobs the workers of each domain have taken since
`queued` was read.
-/

namespace Hataori.Runtime

open Lib.Maps

/-- `DomainExecutor` and its counters. -/
structure DomainExecutor where
  queueCapacity : Nat
  queued : Nat
  inflight : Nat
  deriving DecidableEq, Repr

/-- `DomainRegistry`. -/
abbrev DomainRegistry := Map DomainId DomainExecutor

namespace DomainRegistry

/-- `DomainRegistry::can_submit`. -/
def canSubmit (registry : DomainRegistry) (taken : DomainId → Nat) (domain : DomainId) : Bool :=
  match registry.lookup domain with
  | some executor => decide (executor.queued - taken domain < executor.queueCapacity)
  | none => false

/-- `DomainRegistry::submit` of a job for the domain. -/
def submit (registry : DomainRegistry) (taken : DomainId → Nat) (domain : DomainId) :
    Except RuntimeError DomainRegistry :=
  match registry.lookup domain with
  | none => .error (.unknownDomain domain)
  | some executor =>
    if executor.queued - taken domain < executor.queueCapacity then
      .ok (registry.insert domain
        { executor with queued := executor.queued + 1, inflight := executor.inflight + 1 })
    else .error (.resourceExhausted .actionQueue executor.queueCapacity)

theorem submit_ok_iff {registry next : DomainRegistry} {taken : DomainId → Nat}
    {domain : DomainId} :
    registry.submit taken domain = .ok next ↔
      ∃ executor, registry.lookup domain = some executor ∧
        executor.queued - taken domain < executor.queueCapacity ∧
        next = registry.insert domain
          { executor with queued := executor.queued + 1, inflight := executor.inflight + 1 } := by
  unfold submit
  cases hlook : registry.lookup domain with
  | none => simp
  | some executor =>
    simp only [Option.some.injEq, exists_eq_left']
    split
    · rename_i hroom
      constructor
      · intro h
        exact ⟨hroom, (Except.ok.inj h).symm⟩
      · rintro ⟨-, rfl⟩
        rfl
    · rename_i hfull
      exact ⟨fun h => absurd h (by simp), fun h => absurd h.1 hfull⟩

end DomainRegistry

end Hataori.Runtime
