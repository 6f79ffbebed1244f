import TableApi.Proofs.Updating
import TableApi.Schema.Render

/-! A schema can be written exactly when every type that it names can be resolved. -/
namespace TableApi

variable {registry : Registry} {name : String}

namespace Registry

/-- The name is that of a scalar or of a registered type. -/
def Knows (registry : Registry) (name : String) : Prop :=
  (Scalar.ofName? name).isSome ∨ (registry.get? name).isSome

/-- A type of the category is registered under the name. -/
def Holds (registry : Registry) (category : TypeCategory) (name : String) : Prop :=
  ∃ d, registry.get? name = some d ∧ d.category = category

theorem exists_resolve_iff : (∃ text, registry.resolve name = .ok text) ↔ registry.Knows name := by
  unfold resolve Knows
  cases Scalar.ofName? name with
  | some scalar => simp
  | none =>
    cases registry.get? name with
    | none => simp
    | some d => simp

end Registry

theorem TypeDefinition.exists_resolveMember_iff {owner : TypeDefinition} {expected : TypeCategory} :
    (∃ text, owner.resolveMember expected registry name = .ok text) ↔ registry.Holds expected name := by
  unfold resolveMember Registry.Holds
  cases registry.get? name with
  | none => simp
  | some member => by_cases h : member.category = expected <;> simp [h]

theorem TypeRef.exists_renderIn_iff {ref : TypeRef} :
    (∃ text, ref.renderIn registry = .ok text) ↔ registry.Knows ref.name := by
  rw [renderIn, Except.exists_bind_pure_iff, Registry.exists_resolve_iff]

theorem ArgumentDefinition.exists_renderIn_iff {argument : ArgumentDefinition} :
    (∃ text, argument.renderIn registry = .ok text) ↔ registry.Knows argument.type.name := by
  rw [renderIn, Except.exists_bind_pure_iff, TypeRef.exists_renderIn_iff]

namespace FieldDefinition

/-- The types that a field names: those of its arguments and its own. -/
def namedTypes (field : FieldDefinition) : List String :=
  field.arguments.map (·.type.name) ++ [field.type.name]

theorem exists_renderArguments_iff {arguments : List ArgumentDefinition} :
    (∃ text, renderArguments arguments registry = .ok text) ↔
      ∀ argument ∈ arguments, registry.Knows argument.type.name := by
  unfold renderArguments
  split
  · next h => simp [List.isEmpty_iff.1 h]
  · simp only [Except.exists_bind_pure_iff, Except.exists_mapM_ok_iff,
      ArgumentDefinition.exists_renderIn_iff]

theorem exists_renderIn_iff {field : FieldDefinition} :
    (∃ text, field.renderIn registry = .ok text) ↔ ∀ name ∈ field.namedTypes, registry.Knows name := by
  rw [renderIn, Except.exists_bind_ok_iff]
  simp only [Except.exists_bind_pure_iff, exists_and_right, exists_renderArguments_iff,
    TypeRef.exists_renderIn_iff]
  rw [namedTypes, List.forall_mem_append, List.forall_mem_map, List.forall_mem_singleton]

end FieldDefinition

namespace TypeDefinition

variable {d : TypeDefinition}

/-- All that the definition names is there: the types of fields, and under their category interfaces and
the members of unions. -/
def Resolves (d : TypeDefinition) (registry : Registry) : Prop :=
  match d.body with
  | .object fields | .input fields | .interface fields =>
    (∀ name ∈ d.interfaces, registry.Holds .interface name) ∧
      ∀ field ∈ fields, ∀ name ∈ field.namedTypes, registry.Knows name
  | .union members => ∀ name ∈ members, registry.Holds .type name
  | .enum _ => True

theorem exists_renderInterfaces_iff : (∃ text, d.renderInterfaces registry = .ok text) ↔
    ∀ name ∈ d.interfaces, registry.Holds .interface name := by
  unfold renderInterfaces
  split
  · next h => simp [List.isEmpty_iff.1 h]
  · simp only [Except.exists_bind_pure_iff, Except.exists_mapM_ok_iff, exists_resolveMember_iff]

theorem exists_renderFields_iff {fields : List FieldDefinition} :
    (∃ lines, d.renderFields fields registry = .ok lines) ↔
      (∀ name ∈ d.interfaces, registry.Holds .interface name) ∧
        ∀ field ∈ fields, ∀ name ∈ field.namedTypes, registry.Knows name := by
  rw [renderFields, Except.exists_bind_ok_iff]
  simp only [Except.exists_bind_pure_iff, exists_and_right, exists_renderInterfaces_iff,
    Except.exists_mapM_ok_iff, FieldDefinition.exists_renderIn_iff]

theorem exists_renderLines_iff : (∃ lines, d.renderLines registry = .ok lines) ↔ d.Resolves registry := by
  unfold renderLines Resolves
  cases d.body with
  | object fields | input fields | interface fields => exact exists_renderFields_iff
  | union members =>
    simp only [Except.exists_bind_pure_iff, Except.exists_mapM_ok_iff, exists_resolveMember_iff]
  | enum values => simp

end TypeDefinition

theorem Schema.exists_render_iff {schema : Schema} : (∃ text, schema.render = .ok text) ↔
    ∀ d ∈ schema.registry.definitions, d.Resolves schema.registry := by
  rw [render, Except.exists_bind_pure_iff, typeLines, Except.exists_bind_pure_iff,
    Except.exists_mapM_ok_iff]
  exact forall₂_congr fun d _ => TypeDefinition.exists_renderLines_iff

end TableApi
