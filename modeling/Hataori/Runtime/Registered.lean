import Hataori.Runtime.Registration

/-!
# A registration never fails late

What a registration checks against both registries is that the ids it takes are free. So all ids
stay apart over any sequence of calls, those of the placements, the creations and the built-in
actions among them, and merging the registries at the start meets each of them once.
-/

namespace Hataori.Runtime.Registration

open Lib.Maps
open Hataori.Object (migrationFreezeActionId)

variable {η τ α : Type}

/-! ## The numbers of ids -/

theorem actionId_eq_ok {value : BitVec 128} {id : ActionId} :
    actionId value = .ok id ↔ id.get = value := by
  have hnew : ∀ found : ActionId, ActionId.new found.get.toNat = some found := ActionId.new_get
  constructor
  · intro h
    unfold actionId at h
    split at h
    next found hfound =>
      cases h
      have hnumber := ActionId.new_some hfound value.isLt
      exact BitVec.eq_of_toNat_eq hnumber
    next => cases h
  · rintro rfl
    simp only [actionId, hnew]

theorem placementActionId_eq_ok {action placement : ActionId} :
    placementActionId action = .ok placement ↔
      placement.get = action.get ^^^ placementActionMask :=
  actionId_eq_ok

theorem createActionId_eq_ok {objectType : ObjectTypeId} {create : ActionId} :
    createActionId objectType = .ok create ↔ create.get = objectType.get ^^^ createActionMask :=
  actionId_eq_ok

theorem placementActionId_ne {action placement : ActionId}
    (h : placement.get = action.get ^^^ placementActionMask) : placement.get ≠ action.get := by
  intro heq
  have hmask : placementActionMask = action.get ^^^ (action.get ^^^ placementActionMask) := by
    rw [← BitVec.xor_assoc, BitVec.xor_self, BitVec.zero_xor]
  rw [← h, heq, BitVec.xor_self] at hmask
  exact absurd hmask (by decide)

/-- The numbers of the registered actions. -/
def ActionRegistry.numbers (registry : ActionRegistry η) : List (BitVec 128) :=
  registry.entries.keys.map ActionId.get

/-- The numbers of the actions that create the registered types. -/
def ObjectRegistry.createNumbers (registry : ObjectRegistry η τ α) : List (BitVec 128) :=
  registry.types.keys.map fun objectType => objectType.get ^^^ createActionMask

/-- The numbers an object registry has in use, in the order of `install`. -/
def ObjectRegistry.numbers (registry : ObjectRegistry η τ α) : List (BitVec 128) :=
  builtinActionIds.map ActionId.get ++ (registry.createNumbers ++
    (registry.placements.keys.map ActionId.get ++ registry.actions.keys.map ActionId.get))

/-- The numbers a builder has in use. -/
def Builder.numbers (builder : Builder η τ α) : List (BitVec 128) :=
  builder.registry.numbers ++ builder.objects.numbers

theorem mem_map_get {ids : List ActionId} {id : ActionId} :
    id.get ∈ ids.map ActionId.get ↔ id ∈ ids := by
  constructor
  · intro h
    obtain ⟨other, hother, heq⟩ := List.mem_map.mp h
    exact ActionId.get_injective heq ▸ hother
  · exact List.mem_map_of_mem

theorem ActionRegistry.get_isSome {registry : ActionRegistry η} {id : ActionId} :
    (registry.get id).isSome ↔ id.get ∈ registry.numbers := by
  rw [ActionRegistry.get, AList.lookup_isSome, ActionRegistry.numbers, mem_map_get, AList.mem_keys]

theorem ObjectRegistry.isCreate_iff {id : ActionId} {objectType : ObjectTypeId} :
    isCreate id objectType = true ↔ objectType.get ^^^ createActionMask = id.get := by
  rw [eq_comm (b := id.get), ← createActionId_eq_ok, isCreate]
  split
  next create hcreate => simp [hcreate]
  next error herror => simp [herror]

theorem ObjectRegistry.reservesAction_iff {registry : ObjectRegistry η τ α} {id : ActionId} :
    registry.reservesAction id = true ↔ id.get ∈ registry.numbers := by
  have hcreate : registry.types.keys.any (isCreate id) = true ↔ id.get ∈ registry.createNumbers := by
    rw [List.any_eq_true, createNumbers, List.mem_map]
    exact exists_congr fun objectType => and_congr_right fun _ => isCreate_iff
  rw [reservesAction, Bool.or_eq_true, Bool.or_eq_true, Bool.or_eq_true, hcreate]
  simp only [decide_eq_true_eq, numbers, List.mem_append, mem_map_get, AList.mem_keys]
  tauto

/-! ## What a call changes -/

/-- What an accepted call changes: the ids it takes were free, and no schema is zero. -/
inductive Change : Builder η τ α → Builder η τ α → Prop
  | action (builder : Builder η τ α) (id placement : ActionId) (inputSchema outputSchema : UInt64)
      (handler : η) (schemas : Map ActionId (UInt64 × UInt64))
      (hplacement : placement.get = id.get ^^^ placementActionMask)
      (hschemas : inputSchema ≠ 0 ∧ outputSchema ≠ 0)
      (hid : id.get ∉ builder.numbers) (hplaced : placement.get ∉ builder.numbers) :
      Change builder
        { builder with
          registry := ⟨builder.registry.entries.insert id handler, schemas⟩
          objects := { builder.objects with
            placements := builder.objects.placements.insert placement
              ⟨inputSchema, outputSchema, handler⟩ } }
  | objectType (builder : Builder η τ α) (id : ObjectTypeId)
      (registration : ObjectTypeRegistration τ) (hschema : registration.schema ≠ 0)
      (hnew : id ∉ builder.objects.types) (hcreatable : id.get ^^^ createActionMask ≠ 0)
      (hcreate : id.get ^^^ createActionMask ∉ builder.numbers) :
      Change builder
        { builder with objects :=
          { builder.objects with types := builder.objects.types.insert id registration } }
  | objectAction (builder : Builder η τ α) (id : ActionId)
      (registration : ObjectActionRegistration α)
      (hschemas : registration.inputSchema ≠ 0 ∧ registration.outputSchema ≠ 0)
      (hid : id.get ∉ builder.numbers) :
      Change builder
        { builder with objects :=
          { builder.objects with actions := builder.objects.actions.insert id registration } }
  | sealing (builder : Builder η τ α) : Change builder { builder with isSealed := true }

/-- A call is accepted with a change, or refused and nothing is changed. -/
def Settled (builder : Builder η τ α) (outcome : Except RegistrationError Unit × Builder η τ α) :
    Prop :=
  (outcome.1 = .ok () ∧ Change builder outcome.2) ∨
    (∃ error, outcome.1 = .error error) ∧ outcome.2 = builder

namespace Settled

theorem refused (builder : Builder η τ α) (error : RegistrationError) :
    Settled builder (.error error, builder) :=
  Or.inr ⟨⟨error, rfl⟩, rfl⟩

theorem accepted {builder after : Builder η τ α} (h : Change builder after) :
    Settled builder (.ok (), after) :=
  Or.inl ⟨rfl, h⟩

end Settled

/-- A type is registered when its number and that of its creation are free. -/
theorem ObjectRegistry.registerType_inv {registry objects : ObjectRegistry η τ α}
    {object : DistributedObject τ} {concurrency : ObjectConcurrency}
    {migration : MigrationRegistration}
    (h : registry.registerType object concurrency migration = .ok objects) :
    ∃ id create registration, objectTypeId object.typeId = .ok id ∧
      createActionId id = .ok create ∧ registration.schema ≠ 0 ∧ id ∉ registry.types ∧
      create.get ∉ registry.numbers ∧
      objects = { registry with types := registry.types.insert id registration } := by
  simp only [registerType, bind, Except.bind] at h
  split at h
  · cases h
  next id hid =>
    split at h
    · cases h
    next hschema =>
      split at h
      · cases h
      next hnew =>
        split at h
        · cases h
        next create hcreate =>
          split at h
          · cases h
          next hfree =>
            cases h
            exact ⟨id, create, _, hid, hcreate, hschema, hnew,
              fun hmem => hfree (reservesAction_iff.mpr hmem), rfl⟩

/-- An object action is registered when its number is free. -/
theorem ObjectRegistry.insertAction_inv {registry objects : ObjectRegistry η τ α}
    {action : ObjectAction α} {objectType : ObjectTypeId} {access : ObjectAccess}
    (h : registry.insertAction action objectType access = .ok objects) :
    ∃ id registration, actionId action.id = .ok id ∧
      (registration.inputSchema ≠ 0 ∧ registration.outputSchema ≠ 0) ∧
      id.get ∉ registry.numbers ∧
      objects = { registry with actions := registry.actions.insert id registration } := by
  simp only [insertAction, bind, Except.bind] at h
  split at h
  · cases h
  next id hid =>
    split at h
    · cases h
    next hfree =>
      cases h
      push Not at hfree
      exact ⟨id, _, hid, ⟨hfree.1, hfree.2.1⟩,
        fun hmem => hfree.2.2 (reservesAction_iff.mpr hmem), rfl⟩

theorem ObjectRegistry.registerRead_inv {registry objects : ObjectRegistry η τ α}
    {object : DistributedObject τ} {action : ObjectAction α}
    (h : registry.registerRead object action = .ok objects) :
    ∃ objectType, registry.insertAction action objectType .read = .ok objects := by
  simp only [registerRead, bind, Except.bind] at h
  split at h
  · cases h
  next objectType _ => exact ⟨objectType, h⟩

theorem ObjectRegistry.registerWrite_inv {registry objects : ObjectRegistry η τ α}
    {object : DistributedObject τ} {action : ObjectAction α}
    (h : registry.registerWrite object action = .ok objects) :
    ∃ objectType, registry.insertAction action objectType .write = .ok objects := by
  simp only [registerWrite, bind, Except.bind] at h
  split at h
  · cases h
  next objectType _ =>
    split at h
    · cases h
    · exact ⟨objectType, h⟩

/-- A mobile type passes one check more. -/
theorem ObjectRegistry.validateMobile_inv {registry objects : ObjectRegistry η τ α}
    {object : MobileObject τ} {concurrency : ObjectConcurrency}
    (h : (do
      validateMobile object
      registry.registerType object.toDistributedObject concurrency (mobileMigration object)) =
        .ok objects) :
    registry.registerType object.toDistributedObject concurrency (mobileMigration object) =
      .ok objects := by
  simp only [bind, Except.bind] at h
  split at h
  · cases h
  · exact h

namespace Builder

/-- The builder registers a type that the registry takes. -/
theorem registerObject_settled (builder : Builder η τ α) {object : DistributedObject τ}
    {register : ObjectRegistry η τ α → Except RegistrationError (ObjectRegistry η τ α)}
    (htakes : ∀ objects, register builder.objects = .ok objects →
      ∃ concurrency migration,
        builder.objects.registerType object concurrency migration = .ok objects) :
    Settled builder (builder.registerObject object register) := by
  unfold registerObject
  split
  · exact .refused builder _
  split
  · exact .refused builder _
  next objectType htype =>
    split
    · exact .refused builder _
    next create hcreate =>
      split
      · exact .refused builder _
      next hfree =>
        split
        · exact .refused builder _
        next objects hobjects =>
          obtain ⟨concurrency, migration, htaken⟩ := htakes objects hobjects
          obtain ⟨id, create', registration, hid, hcreate', hschema, hnew, hunused, rfl⟩ :=
            ObjectRegistry.registerType_inv htaken
          cases htype.symm.trans hid
          cases hcreate.symm.trans hcreate'
          have hnumber := createActionId_eq_ok.mp hcreate
          rw [ActionRegistry.get_isSome] at hfree
          refine .accepted (.objectType builder objectType registration hschema hnew ?_ ?_)
          · exact hnumber ▸ create.nonzero
          · rw [← hnumber, numbers, List.mem_append]
            exact fun hused => hused.elim hfree hunused

/-- The builder registers an object action that the registry takes. -/
theorem registerObjectAction_settled (builder : Builder η τ α) {action : ObjectAction α}
    {register : ObjectRegistry η τ α → Except RegistrationError (ObjectRegistry η τ α)}
    (htakes : ∀ objects, register builder.objects = .ok objects →
      ∃ objectType access, builder.objects.insertAction action objectType access = .ok objects) :
    Settled builder (builder.registerObjectAction action register) := by
  unfold registerObjectAction
  split
  · exact .refused builder _
  split
  · exact .refused builder _
  next id hid =>
    split
    · exact .refused builder _
    next hfree =>
      split
      · exact .refused builder _
      next objects hobjects =>
        obtain ⟨objectType, access, htaken⟩ := htakes objects hobjects
        obtain ⟨id', registration, hid', hschemas, hunused, rfl⟩ :=
          ObjectRegistry.insertAction_inv htaken
        cases hid.symm.trans hid'
        rw [ActionRegistry.get_isSome] at hfree
        refine .accepted (.objectAction builder id registration hschemas ?_)
        rw [numbers, List.mem_append]
        exact fun hused => hused.elim hfree hunused

/-- Once the action is registered its placement is not refused. -/
theorem register_settled (builder : Builder η τ α) (action : Action) (handler : η) :
    Settled builder (builder.register action handler) := by
  unfold register
  split
  · exact .refused builder _
  split
  · exact .refused builder _
  next id hid =>
    split
    · exact .refused builder _
    next placement hplacement =>
      split
      · exact .refused builder _
      next hfree =>
        simp only [Bool.or_eq_true, not_or, ObjectRegistry.reservesAction_iff,
          ActionRegistry.get_isSome] at hfree
        obtain ⟨⟨hunused, hunplaced⟩, hunregistered⟩ := hfree
        split
        · exact .refused builder _
        next registry hregistry =>
          simp only [ActionRegistry.register, hid, bind, Except.bind] at hregistry
          split at hregistry
          · cases hregistry
          next hschemas =>
            push Not at hschemas
            split at hregistry
            · cases hregistry
            next hnew =>
              cases hregistry
              have hreserves : builder.objects.reservesAction placement = false := by
                rw [Bool.eq_false_iff]
                exact fun hmem => hunplaced (ObjectRegistry.reservesAction_iff.mp hmem)
              have hplaced : builder.objects.registerPlacement action handler =
                  .ok { builder.objects with
                    placements := builder.objects.placements.insert placement
                      ⟨action.schema, action.outputSchema, handler⟩ } := by
                simp only [ObjectRegistry.registerPlacement, hid, hplacement, bind, Except.bind,
                  hschemas.1, hschemas.2, hreserves, Bool.false_eq_true, or_self, if_false]
              simp only [hplaced]
              refine .accepted (.action builder id placement action.schema action.outputSchema
                handler _ (placementActionId_eq_ok.mp hplacement) hschemas ?_ ?_)
              · rw [numbers, List.mem_append, ← ActionRegistry.get_isSome, ActionRegistry.get,
                  AList.lookup_isSome]
                exact fun hused => hused.elim hnew hunused
              · rw [numbers, List.mem_append]
                exact fun hused => hused.elim hunregistered hunplaced

/-- Every call is accepted with a change, or refused and nothing is changed. -/
theorem apply_settled (builder : Builder η τ α) (call : Call η τ α) :
    Settled builder (builder.apply call) := by
  cases call with
  | action action handler => exact register_settled builder action handler
  | pmapAction action handler => exact register_settled builder action.batch handler
  | collective schema handler => exact register_settled builder (.collectiveEcho schema) handler
  | objectExclusive object => exact registerObject_settled builder fun _ h => ⟨_, _, h⟩
  | objectReadWrite object => exact registerObject_settled builder fun _ h => ⟨_, _, h⟩
  | mobileObjectExclusive object =>
    exact registerObject_settled builder fun _ h =>
      ⟨_, _, ObjectRegistry.validateMobile_inv h⟩
  | mobileObjectReadWrite object =>
    exact registerObject_settled builder fun _ h =>
      ⟨_, _, ObjectRegistry.validateMobile_inv h⟩
  | objectRead object action =>
    refine registerObjectAction_settled builder fun _ h => ?_
    obtain ⟨objectType, hinsert⟩ := ObjectRegistry.registerRead_inv h
    exact ⟨objectType, _, hinsert⟩
  | objectWrite object action =>
    refine registerObjectAction_settled builder fun _ h => ?_
    obtain ⟨objectType, hinsert⟩ := ObjectRegistry.registerWrite_inv h
    exact ⟨objectType, _, hinsert⟩
  | hello => exact .accepted (.sealing builder)

end Builder

/-! ## The ids stay apart -/

/-- The ids in use are distinct, every action has its placement, and no schema is zero. -/
structure Registered (builder : Builder η τ α) : Prop where
  distinct : builder.numbers.Nodup
  placed : (builder.objects.placements.keys.map ActionId.get).Perm
    (builder.registry.entries.keys.map fun action => action.get ^^^ placementActionMask)
  creatable : ∀ number ∈ builder.objects.createNumbers, number ≠ 0
  typeSchemas : ∀ entry ∈ builder.objects.types.entries, entry.2.schema ≠ 0
  placementSchemas : ∀ entry ∈ builder.objects.placements.entries,
    entry.2.inputSchema ≠ 0 ∧ entry.2.outputSchema ≠ 0
  actionSchemas : ∀ entry ∈ builder.objects.actions.entries,
    entry.2.inputSchema ≠ 0 ∧ entry.2.outputSchema ≠ 0

theorem Registered.new : Registered (Builder.new : Builder η τ α) where
  distinct := by
    have hbuiltins : (builtinActionIds.map ActionId.get).Nodup := by decide
    simpa [Builder.numbers, Builder.new, ActionRegistry.numbers, ActionRegistry.empty,
      ObjectRegistry.numbers, ObjectRegistry.createNumbers, ObjectRegistry.empty] using hbuiltins
  placed := List.Perm.refl _
  creatable := fun _ h => nomatch h
  typeSchemas := fun _ h => nomatch h
  placementSchemas := fun _ h => nomatch h
  actionSchemas := fun _ h => nomatch h

theorem not_mem_placements {builder : Builder η τ α} {id : ActionId}
    (h : id.get ∉ builder.numbers) : id ∉ builder.objects.placements := by
  intro hmem
  apply h
  simp only [Builder.numbers, ObjectRegistry.numbers, List.mem_append]
  exact Or.inr (Or.inr (Or.inr (Or.inl (mem_map_get.mpr hmem))))

theorem not_mem_actions {builder : Builder η τ α} {id : ActionId}
    (h : id.get ∉ builder.numbers) : id ∉ builder.objects.actions := by
  intro hmem
  apply h
  simp only [Builder.numbers, ObjectRegistry.numbers, List.mem_append]
  exact Or.inr (Or.inr (Or.inr (Or.inr (mem_map_get.mpr hmem))))

theorem not_mem_registry {builder : Builder η τ α} {id : ActionId}
    (h : id.get ∉ builder.numbers) : id ∉ builder.registry.entries := by
  intro hmem
  apply h
  rw [Builder.numbers, List.mem_append]
  exact Or.inl (mem_map_get.mpr hmem)

/-- A change keeps the ids apart. -/
theorem Registered.change {builder after : Builder η τ α} (h : Registered builder)
    (hchange : Change builder after) : Registered after := by
  cases hchange with
  | action id placement inputSchema outputSchema handler schemas hplacement hschemas hid hplaced =>
    have hkeys := keys_insert_new handler (not_mem_registry hid)
    have hplacementKeys := keys_insert_new
      (⟨inputSchema, outputSchema, handler⟩ : PlacementActionRegistration η)
      (not_mem_placements hplaced)
    have hapart : id.get ∉ placement.get :: builder.numbers := by
      rw [List.mem_cons, not_or]
      exact ⟨(placementActionId_ne hplacement).symm, hid⟩
    have hboth : (id.get :: placement.get :: builder.numbers).Nodup :=
      List.nodup_cons.mpr ⟨hapart, List.nodup_cons.mpr ⟨hplaced, h.distinct⟩⟩
    constructor
    · refine (List.perm_iff_count.mpr fun number => ?_).nodup_iff.mpr hboth
      simp only [Builder.numbers, ActionRegistry.numbers, ObjectRegistry.numbers,
        ObjectRegistry.createNumbers, hkeys, hplacementKeys, List.map_cons, List.count_append,
        List.count_cons]
      omega
    · rw [hkeys, hplacementKeys, List.map_cons, List.map_cons, hplacement]
      exact h.placed.cons _
    · exact h.creatable
    · exact h.typeSchemas
    · rw [AList.entries_insert_of_notMem (not_mem_placements hplaced)]
      exact List.forall_mem_cons.mpr ⟨hschemas, h.placementSchemas⟩
    · exact h.actionSchemas
  | objectType id registration hschema hnew hcreatable hcreate =>
    have hkeys := keys_insert_new registration hnew
    constructor
    · refine (List.perm_iff_count.mpr fun number => ?_).nodup_iff.mpr
        (List.nodup_cons.mpr ⟨hcreate, h.distinct⟩)
      simp only [Builder.numbers, ObjectRegistry.numbers, ObjectRegistry.createNumbers, hkeys,
        List.map_cons, List.count_append, List.count_cons]
      omega
    · exact h.placed
    · rw [ObjectRegistry.createNumbers, hkeys, List.map_cons]
      exact List.forall_mem_cons.mpr ⟨hcreatable, h.creatable⟩
    · rw [AList.entries_insert_of_notMem hnew]
      exact List.forall_mem_cons.mpr ⟨hschema, h.typeSchemas⟩
    · exact h.placementSchemas
    · exact h.actionSchemas
  | objectAction id registration hschemas hid =>
    have hkeys := keys_insert_new registration (not_mem_actions hid)
    constructor
    · refine (List.perm_iff_count.mpr fun number => ?_).nodup_iff.mpr
        (List.nodup_cons.mpr ⟨hid, h.distinct⟩)
      simp only [Builder.numbers, ObjectRegistry.numbers, ObjectRegistry.createNumbers, hkeys,
        List.map_cons, List.count_append, List.count_cons]
      omega
    · exact h.placed
    · exact h.creatable
    · exact h.typeSchemas
    · exact h.placementSchemas
    · rw [AList.entries_insert_of_notMem (not_mem_actions hid)]
      exact List.forall_mem_cons.mpr ⟨hschemas, h.actionSchemas⟩
  | sealing =>
    exact ⟨h.distinct, h.placed, h.creatable, h.typeSchemas, h.placementSchemas, h.actionSchemas⟩

/-- A call keeps the ids apart, accepted or not. -/
theorem Registered.apply {builder : Builder η τ α} (h : Registered builder) (call : Call η τ α) :
    Registered (builder.apply call).2 := by
  rcases builder.apply_settled call with ⟨_, hchange⟩ | ⟨_, hsame⟩
  · exact h.change hchange
  · rw [hsame]
    exact h

/-- So does any sequence of calls. -/
theorem Registered.run {builder : Builder η τ α} (h : Registered builder)
    (calls : List (Call η τ α)) : Registered (builder.run calls) := by
  induction calls generalizing builder with
  | nil => exact h
  | cons call rest ih => exact ih (h.apply call)

/-! ## Merging the registries -/

theorem ascending_perm {κ ν : Type} (number : κ → BitVec 128) (m : Map κ ν) :
    (ascending number m).Perm m.entries :=
  List.perm_insertionSort _ _

/-- A loop goes through when each item takes a number that is still free, and leaves free what it
    does not take. -/
theorem insertEach_ok {ε : Type} (make : ε → Except RegistrationError (Erased η))
    (number : ε → BitVec 128) {items : List ε} {registry : ActionRegistry η}
    {rest : List (BitVec 128)}
    (hmade : ∀ item ∈ items, ∃ entry, make item = .ok entry ∧ entry.id.get = number item ∧
      entry.inputSchema ≠ 0 ∧ entry.outputSchema ≠ 0)
    (hdistinct : (registry.numbers ++ (items.map number ++ rest)).Nodup) :
    ∃ after, insertEach make items registry = .ok after ∧
      (after.numbers ++ rest).Perm (registry.numbers ++ (items.map number ++ rest)) := by
  induction items generalizing registry with
  | nil => exact ⟨registry, rfl, List.Perm.refl _⟩
  | cons item items ih =>
    obtain ⟨⟨entry, hentry, hnumber, hinput, houtput⟩, hmade⟩ := List.forall_mem_cons.mp hmade
    have hperm : (registry.numbers ++ ((item :: items).map number ++ rest)).Perm
        (number item :: registry.numbers ++ (items.map number ++ rest)) := by
      rw [List.map_cons, List.cons_append, List.cons_append]
      exact List.perm_middle
    have hnew : entry.id ∉ registry.entries := by
      intro hmem
      have hfront := (List.nodup_cons.mp (hperm.nodup_iff.mp hdistinct)).1
      exact hfront (List.mem_append_left _ (hnumber ▸ mem_map_get.mpr hmem))
    have hinsert : registry.insertErased entry.id entry.inputSchema entry.outputSchema
        entry.handler = .ok ⟨registry.entries.insert entry.id entry.handler,
          registry.schemas.insert entry.id (entry.inputSchema, entry.outputSchema)⟩ := by
      rw [ActionRegistry.insertErased, if_neg (not_or.mpr ⟨hinput, houtput⟩), if_neg hnew]
    have hnumbers : ActionRegistry.numbers ⟨registry.entries.insert entry.id entry.handler,
        registry.schemas.insert entry.id (entry.inputSchema, entry.outputSchema)⟩ =
          number item :: registry.numbers := by
      rw [ActionRegistry.numbers, keys_insert_new _ hnew, List.map_cons, hnumber,
        ActionRegistry.numbers]
    obtain ⟨after, hafter, hleft⟩ := ih hmade (hnumbers ▸ hperm.nodup_iff.mp hdistinct)
    rw [hnumbers] at hleft
    refine ⟨after, ?_, hleft.trans hperm.symm⟩
    simp only [insertEach, hentry, hinsert, bind, Except.bind]
    exact hafter

theorem ObjectRegistry.builtins_schemas (handlers : Handlers η τ α) :
    ∀ entry ∈ builtins handlers, entry.inputSchema ≠ 0 ∧ entry.outputSchema ≠ 0 := by
  simp [builtins, migrationSchemaId]

theorem locationSchemaId_ne : locationSchemaId ≠ 0 := by decide

theorem Registered.erasedType {builder : Builder η τ α} (h : Registered builder)
    (handlers : Handlers η τ α) {entry : Σ _ : ObjectTypeId, ObjectTypeRegistration τ}
    (hmem : entry ∈ ascending ObjectTypeId.get builder.objects.types) :
    ∃ erased, builder.objects.erasedType handlers entry = .ok erased ∧
      erased.id.get = entry.1.get ^^^ createActionMask ∧
      erased.inputSchema ≠ 0 ∧ erased.outputSchema ≠ 0 := by
  have hentry := (ascending_perm _ _).mem_iff.mp hmem
  have hkey : entry.1 ∈ builder.objects.types.keys := List.mem_map_of_mem hentry
  have hcreatable := h.creatable _ (List.mem_map_of_mem hkey)
  have hcreate : createActionId entry.1 = .ok ⟨entry.1.get ^^^ createActionMask, hcreatable⟩ :=
    createActionId_eq_ok.mpr rfl
  have hhandler : builder.objects.createHandler handlers entry.1 =
      .ok (handlers.create entry.1 entry.2) := by
    have hlookup : builder.objects.types.lookup entry.1 = some entry.2 :=
      List.mem_dlookup builder.objects.types.nodupKeys hentry
    simp only [ObjectRegistry.createHandler, hlookup]
  refine ⟨⟨⟨_, hcreatable⟩, entry.2.schema, locationSchemaId, handlers.create entry.1 entry.2⟩, ?_,
    rfl, h.typeSchemas entry hentry, locationSchemaId_ne⟩
  simp only [ObjectRegistry.erasedType, hcreate, hhandler, bind, Except.bind, pure, Except.pure]

theorem Registered.erasedPlacement {builder : Builder η τ α} (h : Registered builder)
    {entry : Σ _ : ActionId, PlacementActionRegistration η}
    (hmem : entry ∈ ascending ActionId.get builder.objects.placements) :
    entry.2.inputSchema ≠ 0 ∧ entry.2.outputSchema ≠ 0 :=
  h.placementSchemas entry ((ascending_perm _ _).mem_iff.mp hmem)

theorem Registered.erasedAction {builder : Builder η τ α} (h : Registered builder)
    (handlers : Handlers η τ α) {entry : Σ _ : ActionId, ObjectActionRegistration α}
    (hmem : entry ∈ ascending ActionId.get builder.objects.actions) :
    ∃ erased, builder.objects.erasedAction handlers entry = .ok erased ∧
      erased.id.get = entry.1.get ∧ erased.inputSchema ≠ 0 ∧ erased.outputSchema ≠ 0 := by
  have hentry := (ascending_perm _ _).mem_iff.mp hmem
  have hhandler : builder.objects.actionHandler handlers entry.1 =
      .ok (handlers.action entry.1 entry.2) := by
    have hlookup : builder.objects.actions.lookup entry.1 = some entry.2 :=
      List.mem_dlookup builder.objects.actions.nodupKeys hentry
    simp only [ObjectRegistry.actionHandler, hlookup]
  refine ⟨⟨entry.1, entry.2.inputSchema, entry.2.outputSchema, handlers.action entry.1 entry.2⟩,
    ?_, rfl, h.actionSchemas entry hentry⟩
  simp only [ObjectRegistry.erasedAction, hhandler, bind, Except.bind, pure, Except.pure]

/-- The numbers of a map's keys, whatever order its entries are taken in. -/
theorem ascending_numbers {κ ν : Type} (number value : κ → BitVec 128) (m : Map κ ν) :
    ((ascending number m).map fun entry => value entry.1).Perm (m.keys.map value) := by
  refine ((ascending_perm number m).map _).trans ?_
  rw [AList.keys, List.keys, List.map_map]
  exact List.Perm.refl _

/-- Registries whose ids are apart merge, and the ids are those of both. -/
theorem Registered.install {builder : Builder η τ α} (h : Registered builder)
    (handlers : Handlers η τ α) :
    ∃ after, builder.install handlers = .ok after ∧ after.numbers.Perm builder.numbers := by
  have hall : (builder.registry.numbers ++
      ((ObjectRegistry.builtins handlers).map (fun entry : Erased η => entry.id.get) ++
      ((ascending ObjectTypeId.get builder.objects.types).map
        (fun entry : Σ _ : ObjectTypeId, ObjectTypeRegistration τ =>
          entry.1.get ^^^ createActionMask) ++
      ((ascending ActionId.get builder.objects.placements).map
        (fun entry : Σ _ : ActionId, PlacementActionRegistration η => entry.1.get) ++
      ((ascending ActionId.get builder.objects.actions).map
        (fun entry : Σ _ : ActionId, ObjectActionRegistration α => entry.1.get) ++ []))))).Perm builder.numbers := by
    have hcreations := ascending_numbers ObjectTypeId.get
      (fun objectType => objectType.get ^^^ createActionMask) builder.objects.types
    have hplacements := ascending_numbers ActionId.get ActionId.get builder.objects.placements
    have hactions := ascending_numbers ActionId.get ActionId.get builder.objects.actions
    rw [List.append_nil]
    exact ((hcreations.append (hplacements.append hactions)).append_left _).append_left _
  have hdistinct := hall.nodup_iff.mpr h.distinct
  obtain ⟨actions, hbuiltins, hperm⟩ := insertEach_ok .ok _
    (fun entry hentry => ⟨entry, rfl, rfl, ObjectRegistry.builtins_schemas handlers entry hentry⟩)
    hdistinct
  obtain ⟨created, htypes, hcreated⟩ := insertEach_ok _ _
    (fun _ hentry => h.erasedType handlers hentry) (hperm.nodup_iff.mpr hdistinct)
  have hperm := hcreated.trans hperm
  obtain ⟨placed, hplacements, hplaced⟩ := insertEach_ok
    (fun entry => .ok (ObjectRegistry.erasedPlacement handlers entry)) _
    (fun _ hentry => ⟨_, rfl, rfl, h.erasedPlacement hentry⟩) (hperm.nodup_iff.mpr hdistinct)
  have hperm := hplaced.trans hperm
  obtain ⟨after, hactions, hafter⟩ := insertEach_ok _ _
    (fun _ hentry => h.erasedAction handlers hentry) (hperm.nodup_iff.mpr hdistinct)
  refine ⟨after, ?_, ?_⟩
  · simp only [Builder.install, ObjectRegistry.install, hbuiltins, htypes, hplacements, bind,
      Except.bind]
    exact hactions
  · rw [List.append_nil] at hafter
    exact hafter.trans (hperm.trans hall)

/-! ## Any sequence of calls -/

/-- The ids of a builder: the registered actions with their placements, the actions on objects,
    the creations of the object types and what the runtime brings. -/
def Builder.actionIds (builder : Builder η τ α) : List (BitVec 128) :=
  builder.registry.entries.keys.map ActionId.get ++
    (builder.registry.entries.keys.map (fun action => action.get ^^^ placementActionMask) ++
      (builder.objects.actions.keys.map ActionId.get ++
        (builder.objects.types.keys.map (fun objectType => objectType.get ^^^ createActionMask) ++
          builtinActionIds.map ActionId.get)))

theorem Registered.actionIds_perm {builder : Builder η τ α} (h : Registered builder) :
    builder.numbers.Perm builder.actionIds := by
  have hplaced := h.placed
  apply List.perm_iff_count.mpr
  intro number
  have hcount := hplaced.count_eq number
  simp only [Builder.numbers, Builder.actionIds, ActionRegistry.numbers, ObjectRegistry.numbers,
    ObjectRegistry.createNumbers, List.count_append, hcount]
  omega

/-- After any calls all ids are apart and the registries merge into one action for each of them.
    A further call is accepted, or neither registry and neither hash of the handshake changes. -/
theorem registration_never_fails_late (calls : List (Call η τ α)) (handlers : Handlers η τ α) :
    let builder : Builder η τ α := Builder.new.run calls
    builder.actionIds.Nodup ∧
    (∃ actions, builder.install handlers = .ok actions ∧
      (actions.entries.keys.map ActionId.get).Perm builder.actionIds) ∧
    ∀ call error, (builder.apply call).1 = .error error →
      (builder.apply call).2.registry = builder.registry ∧
      (builder.apply call).2.objects = builder.objects ∧
      (builder.apply call).2.hello.1 = builder.hello.1 := by
  intro builder
  have hregistered : Registered builder := Registered.new.run calls
  have hids := hregistered.actionIds_perm
  refine ⟨hids.nodup_iff.mp hregistered.distinct, ?_, ?_⟩
  · obtain ⟨actions, hinstall, hnumbers⟩ := hregistered.install handlers
    exact ⟨actions, hinstall, hnumbers.trans hids⟩
  · intro call error herror
    rcases builder.apply_settled call with ⟨haccepted, _⟩ | ⟨_, hsame⟩
    · rw [haccepted] at herror
      cases herror
    · rw [hsame]
      exact ⟨rfl, rfl, rfl⟩

/-- An action whose id is that of an earlier action's placement is refused. -/
theorem placement_id_taken :
    let builder : Builder Unit Unit Unit := Builder.new.run [.action ⟨5, 1, 1⟩ ()]
    (builder.apply (.action ⟨5 ^^^ placementActionMask, 2, 2⟩ ())).2.registry = builder.registry :=
  ((registration_never_fails_late [.action ⟨5, 1, 1⟩ ()]
    ⟨fun _ => (), (), (), (), (), (), (), (), (), (), fun _ _ => (), fun _ => (), fun _ _ => ()⟩).2.2
    (.action ⟨5 ^^^ placementActionMask, 2, 2⟩ ())
    (.duplicateAction ⟨5 ^^^ placementActionMask, by decide⟩) rfl).1

end Hataori.Runtime.Registration
