import TableApi.Proofs.RootNames
import TableApi.Proofs.WrittenTypes

/-! The schema of a finished pass defines every type that it names, and no type twice. -/
namespace TableApi

theorem Scalar.ofName?_render (scalar : Scalar) : ofName? scalar.render = some scalar := by
  cases scalar <;> decide +kernel

namespace Registry

variable {registry : Registry} {name text : String}

/-- The name is the rendered one of a scalar or that of a registered type. -/
def Writes (registry : Registry) (name : String) : Prop :=
  (∃ scalar : Scalar, name = scalar.render) ∨ ∃ d ∈ registry.definitions, d.name = name

theorem Keyed.names_nodup (h : registry.Keyed) : (registry.definitions.map TypeDefinition.name).Nodup := by
  have hkeys : registry.types.entries.map Prod.fst =
      (registry.definitions.map TypeDefinition.name).map lookupKey := by
    rw [definitions, List.map_map, List.map_map]
    exact List.map_congr_left h
  exact List.Nodup.of_map lookupKey (hkeys ▸ registry.types.nodup)

theorem Keyed.writes_of_resolve (h : registry.Keyed) (hr : registry.resolve name = .ok text) :
    registry.Writes text := by
  unfold resolve at hr
  cases hs : Scalar.ofName? name with
  | some scalar =>
    rw [hs] at hr
    exact .inl ⟨scalar, (Except.ok.inj hr).symm⟩
  | none =>
    cases hg : registry.get? name with
    | none => simp [hs, hg] at hr
    | some d =>
      simp only [hs, hg] at hr
      exact .inr ⟨d, h.get?_mem hg, Except.ok.inj hr⟩

theorem Keyed.writes_of_member {owner : TypeDefinition} {expected : TypeCategory} (h : registry.Keyed)
    (hr : owner.resolveMember expected registry name = .ok text) : registry.Writes text := by
  unfold TypeDefinition.resolveMember at hr
  cases hg : registry.get? name with
  | none => simp [hg] at hr
  | some d =>
    simp only [hg] at hr
    split at hr
    · exact .inr ⟨d, h.get?_mem hg, Except.ok.inj hr⟩
    · cases hr

end Registry

section Mentions

variable {registry : Registry} {d written : TypeDefinition}

/-- The names of types that stand in a definition, but for its own. -/
def TypeDefinition.mentions (d : TypeDefinition) : List String :=
  match d.body with
  | .object fields | .input fields | .interface fields =>
    d.interfaces ++ fields.flatMap FieldDefinition.namedTypes
  | .union members => members
  | .enum _ => []

theorem TypeRef.writes_of_resolved {ref written : TypeRef} (hk : registry.Keyed)
    (h : ref.resolved registry = .ok written) : registry.Writes written.name := by
  simp only [resolved, Except.bind_ok_iff, Except.pure_ok_iff] at h
  obtain ⟨name, hname, rfl⟩ := h
  rw [withName_name]
  exact hk.writes_of_resolve hname

theorem FieldDefinition.writes_of_resolved {field written : FieldDefinition} (hk : registry.Keyed)
    (h : field.resolved registry = .ok written) : ∀ name ∈ written.namedTypes, registry.Writes name := by
  simp only [resolved, Except.bind_ok_iff, Except.pure_ok_iff] at h
  obtain ⟨arguments, ha, type, ht, rfl⟩ := h
  rw [namedTypes, List.forall_mem_append, List.forall_mem_map, List.forall_mem_singleton]
  refine ⟨?_, TypeRef.writes_of_resolved hk ht⟩
  intro argument hargument
  obtain ⟨declared, _, hresolved⟩ := Except.exists_of_mapM_ok ha hargument
  simp only [ArgumentDefinition.resolved, Except.bind_ok_iff, Except.pure_ok_iff] at hresolved
  obtain ⟨argumentType, htype, rfl⟩ := hresolved
  exact TypeRef.writes_of_resolved hk htype

namespace TypeDefinition

theorem writes_of_members {expected : TypeCategory} {names texts : List String} (hk : registry.Keyed)
    (h : names.mapM (d.resolveMember expected registry) = .ok texts) :
    ∀ name ∈ texts, registry.Writes name := by
  intro name hname
  obtain ⟨member, _, hmember⟩ := Except.exists_of_mapM_ok h hname
  exact hk.writes_of_member hmember

theorem writes_of_resolvedFields {fields : List FieldDefinition} {body : List FieldDefinition → TypeBody}
    (hk : registry.Keyed) (h : d.resolvedFields registry fields body = .ok written) :
    ∃ interfaces resolved, written = ⟨d.name, interfaces, body resolved⟩ ∧
      ∀ name ∈ interfaces ++ resolved.flatMap FieldDefinition.namedTypes, registry.Writes name := by
  simp only [resolvedFields, Except.bind_ok_iff, Except.pure_ok_iff] at h
  obtain ⟨interfaces, hi, resolved, hf, rfl⟩ := h
  refine ⟨interfaces, resolved, rfl, ?_⟩
  rw [List.forall_mem_append, List.forall_mem_flatMap]
  refine ⟨writes_of_members hk hi, ?_⟩
  intro field hfield
  obtain ⟨declared, _, hresolved⟩ := Except.exists_of_mapM_ok hf hfield
  exact FieldDefinition.writes_of_resolved hk hresolved

/-- A resolved definition is written under its own name. -/
theorem writes_of_resolved (hk : registry.Keyed) (h : d.resolved registry = .ok written) :
    written.name = d.name ∧ written.category = d.category ∧
      ∀ name ∈ written.mentions, registry.Writes name := by
  unfold resolved at h
  unfold category
  cases hb : d.body with
  | object fields | input fields | interface fields =>
    rw [hb] at h
    obtain ⟨interfaces, written, rfl, hwrites⟩ := writes_of_resolvedFields hk h
    exact ⟨rfl, rfl, hwrites⟩
  | union members =>
    simp only [hb, Except.bind_ok_iff, Except.pure_ok_iff] at h
    obtain ⟨names, hnames, rfl⟩ := h
    exact ⟨rfl, rfl, writes_of_members hk hnames⟩
  | enum values =>
    simp only [hb, Except.ok.injEq] at h
    subst h
    exact ⟨rfl, rfl, fun name hname => absurd hname List.not_mem_nil⟩

end TypeDefinition

end Mentions

/-- Definitions as they are written under a block of roots: no name is defined twice or is a scalar's, every
root has an object type of its very name, and every name that is mentioned is a scalar's or defined once. -/
structure Closed (roots : List RootType) (types : List TypeDefinition) : Prop where
  distinct : (types.map TypeDefinition.name).Nodup
  scalars : ∀ d ∈ types, ∀ scalar : Scalar, d.name ≠ scalar.render
  roots : ∀ root ∈ roots, ∃ d ∈ types, d.name = root.typeName ∧ d.category = .type
  mentions : ∀ d ∈ types, ∀ name ∈ d.mentions,
    (∃ scalar : Scalar, name = scalar.render) ∨ (types.map TypeDefinition.name).count name = 1

/-- A definition is written under the name it was registered with, whatever the names that refer to it. -/
theorem Registry.Keyed.written_names {registry : Registry} {types : List TypeDefinition} (hk : registry.Keyed)
    (ht : registry.written = .ok types) :
    types.map TypeDefinition.name = registry.definitions.map TypeDefinition.name :=
  Except.map_eq_of_mapM_ok ht fun _ _ h => (TypeDefinition.writes_of_resolved hk h).1

theorem Registry.Keyed.closed {registry : Registry} {roots : List RootType} {types : List TypeDefinition}
    (hk : registry.Keyed) (hs : ∀ d ∈ registry.definitions, Scalar.ofName? d.name = none)
    (hr : ∀ root ∈ roots, ∃ d ∈ registry.definitions, d.name = root.typeName ∧ d.category = .type)
    (ht : registry.written = .ok types) : Closed roots types := by
  have hnames := hk.written_names ht
  have hdistinct : (types.map TypeDefinition.name).Nodup := hnames ▸ hk.names_nodup
  refine ⟨hdistinct, ?_, ?_, ?_⟩
  · intro written hwritten scalar hname
    obtain ⟨d, hd, hresolved⟩ := Except.exists_of_mapM_ok ht hwritten
    have hnone := hs d hd
    rw [← (TypeDefinition.writes_of_resolved hk hresolved).1, hname, scalar.ofName?_render] at hnone
    cases hnone
  · intro root hroot
    obtain ⟨d, hd, hname, hcategory⟩ := hr root hroot
    obtain ⟨written, hwritten, hresolved⟩ := forall₂_exists_right (Except.mapM_ok_iff.1 ht) hd
    obtain ⟨hsame, hcategories, _⟩ := TypeDefinition.writes_of_resolved hk hresolved
    exact ⟨written, hwritten, hsame.trans hname, hcategories.trans hcategory⟩
  · intro written hwritten name hname
    obtain ⟨d, _, hresolved⟩ := Except.exists_of_mapM_ok ht hwritten
    rcases (TypeDefinition.writes_of_resolved hk hresolved).2.2 name hname with hscalar | ⟨e, he, rfl⟩
    · exact .inl hscalar
    · right
      apply List.count_eq_one_of_mem hdistinct
      rw [hnames]
      exact List.mem_map_of_mem he

/-- The schema of a finished pass is written from its roots and its types alone. -/
theorem Config.written_of_pass {config : Config} {id : String} {label : Option String} {last : Synthesis}
    {output : Output} (hb : config.BuiltAccepted) (hp : config.pass id label = .ok last)
    (hf : last.finish = .ok output) : ∃ types, last.schema.registry.written = .ok types ∧
      output.schema = Schema.ofLines
        (Schema.rootLines last.schema.roots ++ types.flatMap TypeDefinition.lines) := by
  obtain ⟨_, _, hrooted⟩ := pass_rooted hb hp
  obtain ⟨types, ht, htext⟩ := Schema.render_ok_iff.1 (Synthesis.finish_ok_iff.1 hf).2.1
  rw [hrooted.textless, List.map_nil, List.append_nil] at htext
  exact ⟨types, ht, htext⟩

/-- A table beside types of every category, with names in other spellings than those of the definitions. -/
def dogsAmongPets : Config :=
  { Config.empty with
    tables := [declared "Dog" "dogId" [("dogId", "ID!"), ("breed", "BREED"), ("friends", "[pet!]")]]
    types := ((((AuxiliaryTypes.empty.declare .enum "Breed" (.members ["PUG", "POODLE"])).declare
      .union "Pet" (.members ["DOG", "cat"])).declare
      .type "Cat" (.definition (.ofList [("name", "string"), ("enemy", "dog")]) ["NAMED"])).declare
      .interface "Named" (.plain (.ofList [("name", "STRING")]))) }

end TableApi
