import Hataori.Lib.Machine
import Hataori.Runtime.Dedup

/-!
# What the kept responses take up

The byte budget of the `DedupTable`: `retained_bytes` is one counter for the responses of all
entries, raised by `complete` and given back when an entry goes. A table is accounted when the
counter is what the responses take up. `release_redirect` takes an entry out and gives nothing
back, so the counter is right exactly as long as the redirects it takes out are empty.
-/

namespace Hataori.Runtime

open Lib.Maps Lib.Machine

/-- The bytes of the response an entry keeps. -/
def DedupState.held : DedupState → Nat
  | .completed _ _ (some (_, payload)) _ _ => (payload.map List.length).sum
  | _ => 0

namespace DedupTable

/-- `DedupTable::new`. -/
def new (maxEntries maxBytes ttl : Nat) : DedupTable := ⟨∅, maxEntries, maxBytes, 0, ttl⟩

/-- The bytes of all kept responses. -/
def heldBytes (table : DedupTable) : Nat := total DedupState.held table.entries

/-- A call of one of the operations. -/
inductive Op where
  | begin (request : RequestId) (action : ActionId) (domain : DomainId) (now token : Nat)
  | releaseRedirect (request : RequestId) (action : ActionId) (domain : DomainId)
  | cancel (request : RequestId) (action : ActionId) (domain : DomainId) (now : Nat)
  | complete (message : RuntimeMessage) (now : Nat)
  | expire (now : Nat)
  | clear

/-- The table after a call. -/
def apply (table : DedupTable) : Op → DedupTable
  | .begin request action domain now token => (table.begin request action domain now token).2
  | .releaseRedirect request action domain => (table.releaseRedirect request action domain).2
  | .cancel request action domain now => (table.cancel request action domain now).2
  | .complete message now => (table.complete message now).2
  | .expire now => table.expire now
  | .clear => table.clear

/-- Every call can be made in every state. -/
def step (table : DedupTable) (op : Op) : Option DedupTable := some (table.apply op)

/-- The counter is what the kept responses take up, and both limits are kept. -/
structure Accounted (table : DedupTable) : Prop where
  retained : ∀ state ∈ values table.entries, state.retained = state.held
  sum : table.retainedBytes = table.heldBytes
  bytes : table.retainedBytes ≤ table.maxBytes
  entries : table.len ≤ table.maxEntries

/-- A completion drops its response only when the kept ones leave no room for it. -/
def DropsOnlyOverBudget (table : DedupTable) : Op → Prop
  | .complete message now => ∀ action domain retainedBytes expiresAt,
      (table.complete message now).1 = .ok () →
      (table.complete message now).2.entries.lookup message.request =
        some (.completed action domain none retainedBytes expiresAt) →
      table.maxBytes < table.heldBytes + (message.payload.map List.length).sum
  | _ => True

/-- What a call leaves is accounted, and it drops no response that has room. -/
def Kept (table : DedupTable) (op : Op) : Prop :=
  (table.apply op).Accounted ∧ table.DropsOnlyOverBudget op

/-- The redirect that `release_redirect` takes out, if it takes one out, is empty. -/
def ReleasesEmpty (table : DedupTable) : Op → Prop
  | .releaseRedirect request action domain => ∀ state,
      table.entries.lookup request = some state → state.isMoved →
      state.target = (action, domain) → state.held = 0
  | _ => True

variable {table : DedupTable} {request : RequestId} {action : ActionId} {domain : DomainId}
  {message : RuntimeMessage} {now token : Nat}

theorem new_accounted (maxEntries maxBytes ttl : Nat) :
    (new maxEntries maxBytes ttl).Accounted where
  retained := by simp [new, values]
  sum := rfl
  bytes := Nat.zero_le _
  entries := Nat.zero_le _

theorem clear_accounted (table : DedupTable) : table.clear.Accounted where
  retained := by simp [clear, values]
  sum := rfl
  bytes := Nat.zero_le _
  entries := Nat.zero_le _

/-- `expire` gives back what the expired responses took up. -/
theorem Accounted.expire (h : table.Accounted) (now : Nat) : (table.expire now).Accounted := by
  have hgone : ((values table.entries).filter (DedupState.isExpired now)).map DedupState.retained =
      ((values table.entries).filter (DedupState.isExpired now)).map DedupState.held := by
    apply List.map_congr_left
    intro state hmem
    exact h.retained state (List.mem_of_mem_filter hmem)
  have hparts : (table.expire now).heldBytes +
      (((values table.entries).filter (DedupState.isExpired now)).map DedupState.held).sum =
        table.heldBytes := by
    have hsplit := total_retain (f := DedupState.held) (fun state => !state.isExpired now)
      table.entries
    simp only [Bool.not_not] at hsplit
    exact hsplit
  have hsum : (table.expire now).retainedBytes = (table.expire now).heldBytes := by
    have hcounter := h.sum
    rw [← hparts] at hcounter
    change table.retainedBytes - _ = _
    rw [hgone]
    omega
  refine ⟨fun state hmem => ?_, hsum, ?_, ?_⟩
  · obtain ⟨key, hlook⟩ := mem_values_iff.mp hmem
    simp only [DedupTable.expire, lookup_retain, Option.filter_eq_some_iff] at hlook
    exact h.retained state (mem_values_of_lookup hlook.1)
  · exact (Nat.sub_le _ _).trans h.bytes
  · exact (expire_len table now).trans h.entries

/-- A new entry without a response takes up nothing. -/
theorem Accounted.insert_new (h : table.Accounted) {state : DedupState}
    (hnone : table.entries.lookup request = none) (hroom : table.len < table.maxEntries)
    (hretained : state.retained = 0) (hheld : state.held = 0) :
    { table with entries := table.entries.insert request state : DedupTable }.Accounted := by
  refine ⟨fun other hmem => ?_, ?_, h.bytes, ?_⟩
  · rcases mem_values_insert hmem with rfl | hmem
    · rw [hretained, hheld]
    · exact h.retained other hmem
  · have hcounter := h.sum
    simp only [heldBytes, total_insert_none hnone, hheld] at hcounter ⊢
    omega
  · simp only [len, length_insert_none hnone] at hroom ⊢
    omega

theorem Accounted.begin (h : table.Accounted) (request : RequestId) (action : ActionId)
    (domain : DomainId) (now token : Nat) :
    (table.begin request action domain now token).2.Accounted := by
  have hexpired := h.expire now
  unfold DedupTable.begin
  dsimp only
  cases hlook : (table.expire now).entries.lookup request with
  | some state =>
    dsimp only
    split <;> exact hexpired
  | none =>
    dsimp only
    split
    · exact hexpired
    · next hroom => exact hexpired.insert_new hlook (Nat.not_le.mp hroom) rfl rfl

theorem Accounted.cancel (h : table.Accounted) (request : RequestId) (action : ActionId)
    (domain : DomainId) (now : Nat) : (table.cancel request action domain now).2.Accounted := by
  have hexpired := h.expire now
  unfold DedupTable.cancel
  dsimp only
  cases hlook : (table.expire now).entries.lookup request with
  | some state =>
    dsimp only
    repeat' split
    all_goals exact hexpired
  | none =>
    dsimp only
    split
    · next hroom => exact hexpired.insert_new hlook hroom rfl rfl
    · exact hexpired

/-- An answered request keeps its place, and the counter grows by what it takes up. -/
theorem Accounted.insert_over (h : table.Accounted) {old state : DedupState} {bytes : Nat}
    (hold : table.entries.lookup request = some old) (hempty : old.held = 0)
    (hretained : state.retained = bytes) (hheld : state.held = bytes)
    (hroom : table.retainedBytes + bytes ≤ table.maxBytes) :
    { table with
      entries := table.entries.insert request state
      retainedBytes := table.retainedBytes + bytes : DedupTable }.Accounted := by
  refine ⟨fun other hmem => ?_, ?_, hroom, ?_⟩
  · rcases mem_values_insert hmem with rfl | hmem
    · rw [hretained, hheld]
    · exact h.retained other hmem
  · have hcounter := h.sum
    have hinsert := total_insert_some (f := DedupState.held) (v := state) hold
    simp only [heldBytes] at hcounter ⊢
    omega
  · simp only [len, length_insert_some hold]
    exact h.entries

theorem payloadBytes_eq {payload : Segments} {bytes : Nat} (h : payloadBytes payload = some bytes) :
    (payload.map List.length).sum = bytes := by
  unfold payloadBytes at h
  dsimp only at h
  split at h
  · exact Option.some.inj h
  · cases h

/-- An accepted completion answers an entry that takes up nothing yet. -/
theorem complete_inv (table : DedupTable) (message : RuntimeMessage) (now : Nat) :
    (table.complete message now).2 = table ∧ (table.complete message now).1 ≠ .ok () ∨
    ∃ old, table.entries.lookup message.request = some old ∧ old.held = 0 ∧
      table.complete message now =
        (.ok (), table.retainResponse message (message.payload.map List.length).sum now) := by
  unfold complete
  cases hlook : table.entries.lookup message.request with
  | none => exact .inl ⟨rfl, by simp⟩
  | some old =>
    cases old with
    | completed _ _ _ _ _ => exact .inl ⟨rfl, by simp⟩
    | running action domain cancelled =>
      dsimp only
      split
      · exact .inl ⟨rfl, by simp⟩
      · cases hbytes : payloadBytes message.payload with
        | none => exact .inl ⟨rfl, by simp⟩
        | some bytes => exact .inr ⟨_, rfl, rfl, by rw [payloadBytes_eq hbytes]⟩
    | cancelled action domain expiresAt =>
      dsimp only
      split
      · exact .inl ⟨rfl, by simp⟩
      · cases hbytes : payloadBytes message.payload with
        | none => exact .inl ⟨rfl, by simp⟩
        | some bytes => exact .inr ⟨_, rfl, rfl, by rw [payloadBytes_eq hbytes]⟩

theorem Accounted.complete (h : table.Accounted) (message : RuntimeMessage) (now : Nat) :
    (table.complete message now).2.Accounted := by
  rcases complete_inv table message now with ⟨hsame, -⟩ | ⟨old, hlook, hempty, hdone⟩
  · rwa [hsame]
  · rw [hdone]
    unfold retainResponse
    split
    · next hroom => exact h.insert_over hlook hempty rfl rfl hroom
    · have hroom : table.retainedBytes + 0 ≤ table.maxBytes := h.bytes
      exact h.insert_over hlook hempty rfl rfl hroom

theorem Accounted.drops (h : table.Accounted) (message : RuntimeMessage) (now : Nat) :
    table.DropsOnlyOverBudget (.complete message now) := by
  intro action domain retainedBytes expiresAt hok hlook
  rcases complete_inv table message now with ⟨-, herror⟩ | ⟨old, -, -, hdone⟩
  · exact absurd hok herror
  · rw [hdone] at hlook
    unfold retainResponse at hlook
    split at hlook
    · rw [AList.lookup_insert] at hlook
      cases hlook
    · next hfull =>
      rw [← h.sum]
      exact Nat.not_le.mp hfull

/-- A redirect that is taken out leaves the counter as it is. -/
theorem releaseRedirect_inv (table : DedupTable) (request : RequestId) (action : ActionId)
    (domain : DomainId) :
    ((table.releaseRedirect request action domain).2 = table ∧
      table.ReleasesEmpty (.releaseRedirect request action domain)) ∨
    ∃ state, table.entries.lookup request = some state ∧
      (table.ReleasesEmpty (.releaseRedirect request action domain) ↔ state.held = 0) ∧
      (table.releaseRedirect request action domain).2 =
        { table with entries := table.entries.erase request } := by
  unfold releaseRedirect
  cases hlook : table.entries.lookup request with
  | none => exact .inl ⟨rfl, by simp [ReleasesEmpty, hlook]⟩
  | some state =>
    dsimp only
    split
    · next hmoved =>
      refine .inr ⟨state, rfl, ?_, rfl⟩
      simp [ReleasesEmpty, hlook, hmoved]
    · next hmoved =>
      refine .inl ⟨by split <;> rfl, fun other hother hismoved htarget => ?_⟩
      rw [hlook] at hother
      cases hother
      exact absurd ⟨hismoved, htarget⟩ hmoved

/-- Taking a redirect out keeps the account exactly when the redirect is empty. -/
theorem Accounted.releaseRedirect_iff (h : table.Accounted) (request : RequestId)
    (action : ActionId) (domain : DomainId) :
    table.ReleasesEmpty (.releaseRedirect request action domain) ↔
      (table.releaseRedirect request action domain).2.Accounted := by
  rcases releaseRedirect_inv table request action domain with
    ⟨hsame, hempty⟩ | ⟨state, hlook, hempty, herased⟩
  · rw [hsame]
    exact iff_of_true hempty h
  · have hrest := total_erase (f := DedupState.held) hlook
    have hcounter := h.sum
    rw [hempty, herased]
    constructor
    · intro hzero
      refine ⟨fun other hmem => ?_, ?_, h.bytes, ?_⟩
      · obtain ⟨key, hother⟩ := mem_values_iff.mp hmem
        have hne : key ≠ request := by
          rintro rfl
          rw [AList.lookup_erase] at hother
          cases hother
        exact h.retained other (mem_values_of_lookup ((AList.lookup_erase_ne hne).symm.trans hother))
      · simp only [heldBytes] at hcounter ⊢
        omega
      · exact ((List.kerase_sublist request table.entries.entries).length_le).trans h.entries
    · intro hafter
      have hsum := hafter.sum
      simp only [heldBytes] at hcounter hsum
      omega

/-- One call: the account is kept exactly when no response goes with a redirect. -/
theorem Accounted.kept_iff (h : table.Accounted) (op : Op) :
    table.ReleasesEmpty op ↔ table.Kept op := by
  cases op with
  | begin request action domain now token =>
    exact iff_of_true trivial ⟨h.begin request action domain now token, trivial⟩
  | releaseRedirect request action domain =>
    rw [h.releaseRedirect_iff]
    exact (and_iff_left trivial).symm
  | cancel request action domain now =>
    exact iff_of_true trivial ⟨h.cancel request action domain now, trivial⟩
  | complete message now => exact iff_of_true trivial ⟨h.complete message now, h.drops message now⟩
  | expire now => exact iff_of_true trivial ⟨h.expire now, trivial⟩
  | clear => exact iff_of_true trivial ⟨clear_accounted table, trivial⟩

/-- In every run, the counter stays what the responses take up, and no response is dropped that
    has room, exactly when every redirect taken out is empty. -/
theorem budget_kept_iff (maxEntries maxBytes ttl : Nat) (ops : List Op) :
    Along step ReleasesEmpty (new maxEntries maxBytes ttl) ops ↔
      Along step Kept (new maxEntries maxBytes ttl) ops := by
  refine along_iff Accounted (fun table op h => h.kept_iff op) ?_ (new_accounted _ _ _) ops
  intro table op next _ hkept hstep
  cases hstep
  exact hkept.1

section Sample

/-- A request of locality 0. -/
private def sampleRequest (sequence : UInt64) (h : sequence ≠ 0) : RequestId := ⟨⟨0⟩, sequence, h⟩

private def sampleAction : ActionId := ⟨1, u128_one⟩

private def sampleMessage (kind : RuntimeMessageKind) (request : RequestId) : RuntimeMessage :=
  ⟨kind, request, sampleAction, ⟨0⟩, 0, [[7]]⟩

/-- A redirect of one byte is kept and released, and then a response of one byte comes. -/
private def sampleRun : List Op :=
  [.begin (sampleRequest 1 u64_one) sampleAction ⟨0⟩ 0 0,
    .complete (sampleMessage .moved (sampleRequest 1 u64_one)) 0,
    .releaseRedirect (sampleRequest 1 u64_one) sampleAction ⟨0⟩,
    .begin (sampleRequest 2 u64_two) sampleAction ⟨0⟩ 0 1,
    .complete (sampleMessage .success (sampleRequest 2 u64_two)) 0]

/-- The released byte is never given back: nothing is kept, and the response has no room. -/
theorem budget_leaked : ¬(∀ maxEntries maxBytes ttl ops,
    Along step Kept (new maxEntries maxBytes ttl) ops) ∧
    ∃ table, exec step (new 4 1 10) sampleRun = some table ∧ table.retainedBytes = 1 ∧
      table.heldBytes = 0 ∧ table.entries.lookup (sampleRequest 2 (by decide)) =
        some (.completed sampleAction ⟨0⟩ none 0 10) := by
  constructor
  · intro h
    have hreleased := (((h 4 1 10 sampleRun).2 _ rfl).2 _ rfl).1
    have hsum : 1 = 0 := hreleased.1.sum
    cases hsum
  · exact ⟨_, rfl, rfl, rfl, rfl⟩

end Sample

end DedupTable

end Hataori.Runtime
