import TableApi.Proofs.DeclaredTypes
import TableApi.Proofs.RenderedSchemas

/-! Which schemas can be written, whatever calls put them together. All types that are named have to be there, each
of a category that fits its place. Where they stand makes no difference. -/
namespace TableApi

namespace Schema

/-- A call on a schema in the making. -/
inductive Edit where
  | object (name : String) (attributes : Attributes) (interfaces : List String)
  | input (name : String) (attributes : Attributes)
  | interface (name : String) (attributes : Attributes)
  | union (name : String) (members : List String)
  | enum (name : String) (values : List String)
  | types (declared : AuxiliaryTypes)
  | table (added : Table) (operations : List Operation)
  | field (root : RootType) (added : FieldDefinition)
  | text (added : String)

def Edit.update : Edit → Updating Schema Unit
  | object name attributes interfaces => do let _ ← addObject name attributes interfaces
  | input name attributes => do let _ ← addInput name attributes
  | interface name attributes => do let _ ← addInterface name attributes
  | union name members => do let _ ← addUnion name members
  | enum name values => do let _ ← addEnum name values
  | types declared => declared.register
  | table added operations => addTable added operations
  | field root added => addRootField root added
  | text added => addText added

theorem gives_discard {α : Type} {x : Updating Schema α} {s t : Schema} :
    Gives (do let _ ← x) s ⟨⟩ t ↔ ∃ a, Gives x s a t := by
  rw [gives_bind]
  constructor
  · rintro ⟨a, r, hx, hr⟩
    obtain ⟨_, rfl⟩ := gives_pure.1 hr
    exact ⟨a, hx⟩
  · rintro ⟨a, hx⟩
    exact ⟨a, t, hx, gives_pure.2 ⟨rfl, rfl⟩⟩

/-- The schema is made by these calls, of which none is refused. -/
def Edited (edits : List Edit) (s : Schema) : Prop :=
  Gives (edits.forM Edit.update) .empty ⟨⟩ s

/-- Every type that is named is among the types, and is of the category that its place asks for. Fields and arguments
may be of any, and of scalars too. -/
structure Complete (types : List TypeDefinition) : Prop where
  fields : ∀ d ∈ types, ∀ field ∈ d.fields, ∀ name ∈ field.namedTypes,
    (∃ scalar, Scalar.ofName? name = some scalar) ∨ ∃ e ∈ types, lookupKey e.name = lookupKey name
  interfaces : ∀ d ∈ types, ∀ name ∈ d.interfaces,
    ∃ e ∈ types, lookupKey e.name = lookupKey name ∧ e.category = .interface
  members : ∀ d ∈ types, ∀ members, d.body = .union members → ∀ name ∈ members,
    ∃ e ∈ types, lookupKey e.name = lookupKey name ∧ e.category = .type

/-- Where the types stand makes no difference. -/
theorem Complete.of_same_members {types others : List TypeDefinition} (h : Complete types)
    (hsame : ∀ d, d ∈ others ↔ d ∈ types) : Complete others := by
  have hfound : ∀ p : TypeDefinition → Prop, (∃ e ∈ types, p e) → ∃ e ∈ others, p e := by
    rintro p ⟨e, he, hp⟩
    exact ⟨e, (hsame e).2 he, hp⟩
  refine ⟨fun d hd field hf name hn => ?_, fun d hd name hn => ?_, fun d hd members hb name hn => ?_⟩
  · exact (h.fields d ((hsame d).1 hd) field hf name hn).imp_right (hfound _)
  · exact hfound _ (h.interfaces d ((hsame d).1 hd) name hn)
  · exact hfound _ (h.members d ((hsame d).1 hd) members hb name hn)

end Schema

section Invalid

variable {α β : Type}

/-- The check refuses nothing but what is invalid. -/
def Validates (x : Except Error α) : Prop :=
  ∀ e, x = .error e → e.kind = .validation

theorem validates_ok {a : α} : Validates (.ok a) := by
  rintro _ ⟨⟩

theorem Validates.bind {x : Except Error α} {f : α → Except Error β} (h : Validates x)
    (hf : ∀ a, Validates (f a)) : Validates (x >>= f) := by
  cases x with
  | error e => exact fun other hother => h other (by cases hother; rfl)
  | ok a => exact hf a

theorem Validates.bind_pure {x : Except Error α} {f : α → β} (h : Validates x) :
    Validates (x >>= fun a => pure (f a)) :=
  h.bind fun _ => validates_ok

theorem validates_mapM {f : α → Except Error β} {xs : List α} (h : ∀ x ∈ xs, Validates (f x)) :
    Validates (xs.mapM f) := by
  induction xs with
  | nil => exact validates_ok
  | cons x xs ih =>
    rw [List.forall_mem_cons] at h
    rw [List.mapM_cons]
    exact h.1.bind fun _ => (ih h.2).bind_pure

variable {registry : Registry}

theorem Registry.validates_resolve {name : String} : Validates (registry.resolve name) := by
  intro e he
  unfold resolve at he
  split at he
  · cases he
  · split at he
    · cases he
    · obtain rfl := Except.error.inj he
      rfl

theorem TypeDefinition.validates_resolveMember {owner : TypeDefinition} {expected : TypeCategory} {name : String} :
    Validates (owner.resolveMember expected registry name) := by
  intro e he
  unfold resolveMember at he
  split at he
  · obtain rfl := Except.error.inj he
    rfl
  · split at he
    · cases he
    · obtain rfl := Except.error.inj he
      rfl

theorem TypeRef.validates_renderIn {ref : TypeRef} : Validates (ref.renderIn registry) :=
  Registry.validates_resolve.bind_pure

theorem FieldDefinition.validates_renderIn {field : FieldDefinition} : Validates (field.renderIn registry) := by
  have harguments : Validates (renderArguments field.arguments registry) := by
    unfold renderArguments
    split
    · exact validates_ok
    · exact (validates_mapM fun _ _ => TypeRef.validates_renderIn.bind_pure).bind_pure
  exact harguments.bind fun _ => TypeRef.validates_renderIn.bind_pure

theorem TypeDefinition.validates_renderFields {d : TypeDefinition} {fields : List FieldDefinition} :
    Validates (d.renderFields fields registry) := by
  have hinterfaces : Validates (d.renderInterfaces registry) := by
    unfold renderInterfaces
    split
    · exact validates_ok
    · exact (validates_mapM fun _ _ => validates_resolveMember).bind_pure
  exact hinterfaces.bind fun _ =>
    (validates_mapM fun _ _ => FieldDefinition.validates_renderIn.bind_pure).bind_pure

theorem TypeDefinition.validates_renderLines {d : TypeDefinition} : Validates (d.renderLines registry) := by
  unfold renderLines
  cases d.body with
  | object | input | interface => exact validates_renderFields
  | union => exact (validates_mapM fun _ _ => validates_resolveMember).bind_pure
  | enum => exact validates_ok

theorem Schema.validates_render {schema : Schema} : Validates schema.render :=
  ((validates_mapM fun _ _ => TypeDefinition.validates_renderLines).bind_pure).bind_pure

end Invalid

namespace Registry

variable {registry : Registry} {name : String}

theorem Keyed.exists_get?_iff (h : registry.Keyed) {p : TypeDefinition → Prop} :
    (∃ d, registry.get? name = some d ∧ p d) ↔
      ∃ d ∈ registry.definitions, lookupKey d.name = lookupKey name ∧ p d := by
  constructor
  · rintro ⟨d, hd, hp⟩
    exact ⟨d, h.get?_mem hd, h.key_of_get? hd, hp⟩
  · rintro ⟨d, hd, hk, hp⟩
    rw [h.mem_definitions_iff, get?_congr hk] at hd
    exact ⟨d, hd, hp⟩

theorem Keyed.knows_iff (h : registry.Keyed) : registry.Knows name ↔
    (∃ scalar, Scalar.ofName? name = some scalar) ∨ ∃ d ∈ registry.definitions, lookupKey d.name = lookupKey name := by
  have hfound : (∃ d, registry.get? name = some d ∧ True) ↔ _ := h.exists_get?_iff
  simp only [and_true] at hfound
  rw [Knows, Option.isSome_iff_exists, Option.isSome_iff_exists, hfound]

theorem Keyed.holds_iff {category : TypeCategory} (h : registry.Keyed) : registry.Holds category name ↔
    ∃ d ∈ registry.definitions, lookupKey d.name = lookupKey name ∧ d.category = category :=
  h.exists_get?_iff

end Registry

/-- What a definition asks of a registry is asked of its parts, as only objects implement interfaces. -/
theorem TypeDefinition.resolves_iff {registry : Registry} {d : TypeDefinition}
    (hbare : d.category = .union ∨ d.category = .enum → d.interfaces = []) :
    d.Resolves registry ↔ (∀ field ∈ d.fields, ∀ name ∈ field.namedTypes, registry.Knows name) ∧
      (∀ name ∈ d.interfaces, registry.Holds .interface name) ∧
      ∀ members, d.body = .union members → ∀ name ∈ members, registry.Holds .type name := by
  obtain ⟨name, interfaces, body⟩ := d
  cases body with
  | object fields | input fields | interface fields =>
    simp [Resolves, TypeDefinition.fields, TypeBody.fields, and_comm]
  | union members =>
    obtain rfl := hbare (.inl rfl)
    simp [Resolves, TypeDefinition.fields, TypeBody.fields]
  | enum values =>
    obtain rfl := hbare (.inr rfl)
    simp [Resolves, TypeDefinition.fields, TypeBody.fields]

theorem TypeDefinition.Proper.grown {d : TypeDefinition} {added : List (RootType × FieldDefinition)} (h : d.Proper)
    (hc : (d.grown added).category = .union ∨ (d.grown added).category = .enum) : (d.grown added).interfaces = [] := by
  rw [grown_category] at hc
  have hkept : d.grown added = d := by
    refine grown_of_category fun htype => ?_
    simp [htype] at hc
  rw [hkept]
  exact h.bare hc

theorem AuxiliaryTypes.define_proper {category : TypeCategory} {name : String} {shape : TypeShape}
    {d : TypeDefinition} (h : define category name shape = .ok d) : d.Proper := by
  obtain ⟨hstands, hnamed⟩ := define_ok_iff.1 h
  refine ⟨hnamed, fun hc => ?_⟩
  obtain ⟨_, interfaces, body⟩ := d
  cases hstands.body <;> simp [TypeDefinition.category, TypeBody.category] at hc ⊢

namespace Schema

variable {s t : Schema} {edits : List Edit}

/-- All that is registered was made for it, but for the fields that roots have gained. -/
def FilledProperly (s : Schema) : Prop :=
  ∃ made added, s.Filled made added ∧ ∀ d ∈ made, d.Proper

theorem FilledProperly.register {d e : TypeDefinition} (h : s.FilledProperly) (hd : d.Proper)
    (hg : Gives (register d) s e t) : t.FilledProperly := by
  obtain ⟨made, added, hs, hmade⟩ := h
  obtain ⟨r, hr, rfl⟩ := gives_register.1 hg
  exact ⟨made ++ [d], added, ⟨hs.registry.register hr, hs.roots⟩,
    List.forall_mem_append.2 ⟨hmade, List.forall_mem_singleton.2 hd⟩⟩

theorem FilledProperly.types {declared : AuxiliaryTypes} (h : s.FilledProperly)
    (hg : Gives declared.register s ⟨⟩ t) : t.FilledProperly := by
  obtain ⟨made, added, hs, hmade⟩ := h
  obtain ⟨types, r, htypes, hr, rfl⟩ := AuxiliaryTypes.gives_register.1 hg
  refine ⟨made ++ types, added, ⟨hs.registry.registers hr, hs.roots⟩, List.forall_mem_append.2 ⟨hmade, fun d hd => ?_⟩⟩
  obtain ⟨_, _, hdefine⟩ := Except.exists_of_mapM_ok htypes hd
  exact AuxiliaryTypes.define_proper hdefine

theorem FilledProperly.table {table : Table} {operations : List Operation} (h : s.FilledProperly)
    (hg : Gives (addTable table operations) s ⟨⟩ t) : t.FilledProperly := by
  obtain ⟨made, added, hs, hmade⟩ := h
  obtain ⟨types, htypes, ht⟩ := hs.addOperations hg
  refine ⟨_, _, ht, List.forall_mem_append.2 ⟨hmade, List.forall_mem_append.2 ⟨Table.types_proper htypes, ?_⟩⟩⟩
  exact List.forall_mem_map.2 fun o _ => TypeDefinition.emptyType_proper o.root

theorem FilledProperly.field {root : RootType} {field : FieldDefinition} (h : s.FilledProperly)
    (hg : Gives (addRootField root field) s ⟨⟩ t) : t.FilledProperly := by
  obtain ⟨made, added, hs, hmade⟩ := h
  exact ⟨_, _, hs.addRootField hg,
    List.forall_mem_append.2 ⟨hmade, List.forall_mem_singleton.2 (TypeDefinition.emptyType_proper root)⟩⟩

/-- Whatever the call, what it registers is made for it. -/
theorem FilledProperly.update {edit : Edit} (h : s.FilledProperly) (hg : Gives edit.update s ⟨⟩ t) :
    t.FilledProperly := by
  cases edit with
  | object name attributes interfaces =>
    obtain ⟨_, hg⟩ := gives_discard.1 hg
    obtain ⟨d, hd, hr⟩ := gives_register_of_checks.1 hg
    exact h.register (TypeDefinition.make_proper_of_attributes (by simp) hd) hr
  | input name attributes =>
    obtain ⟨_, hg⟩ := gives_discard.1 hg
    obtain ⟨d, hd, hr⟩ := gives_register_of_checks.1 hg
    exact h.register (TypeDefinition.make_proper_of_attributes (by simp) hd) hr
  | interface name attributes =>
    obtain ⟨_, hg⟩ := gives_discard.1 hg
    obtain ⟨d, hd, hr⟩ := gives_register_of_checks.1 hg
    exact h.register (TypeDefinition.make_proper_of_attributes (by simp) hd) hr
  | union name members =>
    obtain ⟨_, hg⟩ := gives_discard.1 hg
    obtain ⟨d, hd, hr⟩ := gives_register_of_check.1 hg
    exact h.register (TypeDefinition.make_proper hd fun _ => rfl) hr
  | enum name values =>
    obtain ⟨_, hg⟩ := gives_discard.1 hg
    obtain ⟨d, hd, hr⟩ := gives_register_of_check.1 hg
    exact h.register (TypeDefinition.make_proper hd fun _ => rfl) hr
  | types declared => exact h.types hg
  | table added operations => exact h.table hg
  | field root added => exact h.field hg
  | text added =>
    obtain ⟨made, fields, hs, hmade⟩ := h
    obtain rfl := gives_modify.1 hg
    exact ⟨made, fields, ⟨hs.registry, hs.roots⟩, hmade⟩

theorem FilledProperly.run (h : s.FilledProperly) (hg : Gives (edits.forM Edit.update) s ⟨⟩ t) :
    t.FilledProperly := by
  induction edits generalizing s with
  | nil =>
    obtain rfl := gives_forM_nil.1 hg
    exact h
  | cons edit edits ih =>
    obtain ⟨mid, hmid, hg⟩ := gives_forM_cons.1 hg
    exact ih (h.update hmid) hg

theorem Edited.filledProperly (h : Edited edits s) : s.FilledProperly :=
  FilledProperly.run ⟨[], [], filled_empty, fun _ hd => absurd hd List.not_mem_nil⟩ h

/-- All that the definitions name can be resolved exactly if it is there. -/
theorem FilledProperly.exists_render_iff (h : s.FilledProperly) :
    (∃ text, s.render = .ok text) ↔ Complete s.registry.definitions := by
  obtain ⟨made, added, hs, hmade⟩ := h
  have hbare : ∀ d ∈ s.registry.definitions, d.category = .union ∨ d.category = .enum → d.interfaces = [] := by
    rw [hs.registry.definitions, List.forall_mem_map]
    exact fun d hd => (hmade d ((firstByName_sublist _ _).subset hd)).grown
  have hk := hs.registry.keyed
  rw [Schema.exists_render_iff]
  constructor
  · intro hall
    have hparts := fun d hd => (TypeDefinition.resolves_iff (hbare d hd)).1 (hall d hd)
    simp only [hk.knows_iff, hk.holds_iff] at hparts
    exact ⟨fun d hd => (hparts d hd).1, fun d hd => (hparts d hd).2.1, fun d hd => (hparts d hd).2.2⟩
  · intro hc d hd
    rw [TypeDefinition.resolves_iff (hbare d hd)]
    simp only [hk.knows_iff, hk.holds_iff]
    exact ⟨hc.fields d hd, hc.interfaces d hd, hc.members d hd⟩

/-- A schema can be written exactly if all types that it names are among its own, and is refused as invalid if not.
Where its types stand, and by which calls they came there, makes no difference. -/
theorem edited_render_iff (h : Edited edits s) :
    ((∃ text, s.render = .ok text) ↔ Complete s.registry.definitions) ∧
    (¬ Complete s.registry.definitions → ∃ error, s.render = .error error ∧ error.kind = .validation) ∧
    ∀ others t, Edited others t → (∀ d, d ∈ t.registry.definitions ↔ d ∈ s.registry.definitions) →
      ((∃ text, t.render = .ok text) ↔ ∃ text, s.render = .ok text) := by
  have hs := h.filledProperly.exists_render_iff
  refine ⟨hs, fun hno => ?_, fun others t ht hsame => ?_⟩
  · cases hr : s.render with
    | ok text => exact absurd (hs.1 ⟨text, hr⟩) hno
    | error e => exact ⟨e, rfl, validates_render e hr⟩
  · rw [hs, ht.filledProperly.exists_render_iff]
    exact ⟨fun hc => hc.of_same_members fun d => (hsame d).symm, fun hc => hc.of_same_members hsame⟩

/-- Dogs refer to themselves, to their owners and to an interface that follows, and owners refer to dogs. -/
def kennel : List Edit :=
  [.object "Dog" (.ofList [("friends", "[Dog!]"), ("owner", "Owner!")]) ["Named"],
    .object "Owner" (.ofList [("dogs", "[DOG]"), ("since", "AWS_DATE")]) [],
    .union "Pet" ["dog", "Dog"],
    .interface "Named" (.ofList [("name", "String")]),
    .field .query ⟨"dogs", [⟨"like", .named "DogInput"⟩], .list "Dog" true true⟩,
    .input "DogInput" (.ofList [("name", "String")]),
    .text "# Dogs and their owners"]

/-- The types can be registered the other way round as well. -/
theorem kennel_rendered : ∃ s t, Edited kennel s ∧ Edited kennel.reverse t ∧
    s.registry.definitions ≠ t.registry.definitions ∧ Complete s.registry.definitions ∧
    (∃ text, s.render = .ok text) ∧ ∃ text, t.render = .ok text := by
  obtain ⟨s, hs, hrender, hother⟩ := Except.exists_ok_of_decide (x := left (kennel.forM Edit.update) .empty)
    (p := fun s => (s.render.toOption.any fun _ => decide True) ∧
      (left (kennel.reverse.forM Edit.update) .empty).toOption.any fun t => decide
        (s.registry.definitions ≠ t.registry.definitions ∧
          (∀ d ∈ t.registry.definitions, d ∈ s.registry.definitions) ∧
          ∀ d ∈ s.registry.definitions, d ∈ t.registry.definitions)) (by decide +kernel)
  obtain ⟨t, ht, hne, hts, hst⟩ := Except.exists_ok_of_decide hother
  obtain ⟨text, htext, _⟩ := Except.exists_ok_of_decide hrender
  obtain ⟨_, hs⟩ := left_ok_iff.1 hs
  obtain ⟨_, ht⟩ := left_ok_iff.1 ht
  obtain ⟨hiff, _, hsame⟩ := edited_render_iff hs
  refine ⟨s, t, hs, ht, hne, hiff.1 ⟨text, htext⟩, ⟨text, htext⟩, ?_⟩
  exact (hsame _ t ht fun d => ⟨hts d, hst d⟩).2 ⟨text, htext⟩

end Schema

end TableApi
