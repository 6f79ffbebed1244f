import TableApi.Proofs.RootFields

/-! When bindings and root fields pass the comparison at the end. -/
namespace TableApi

namespace Operation

variable {operation : Operation} {base : String}

theorem toField_type_name : (operation.toField base).type.name = base := by
  unfold toField
  cases operation.cardinality <;> rfl

theorem toField_isList : (operation.toField base).type.isList = decide (operation.cardinality = .list) := by
  unfold toField
  cases operation.cardinality <;> rfl

/-- The comparison leaves out all arguments named `input`, also a key of that name. -/
theorem fieldKeys_toField : Synthesis.fieldKeys (operation.toField base) =
    (operation.keys.filter (·.name ≠ "input")).map fun key => (key.name, key.type) := by
  have hinput : ((operation.input.map fun input => (⟨"input", .named input⟩ : ArgumentDefinition)).toList.filter
      (·.name ≠ "input")) = [] := by
    cases operation.input <;> simp
  rw [Synthesis.fieldKeys, toField, List.filter_append, hinput, List.append_nil, List.filter_map,
    List.map_map]
  rfl

theorem fieldKeys_toField_eq_iff : Synthesis.fieldKeys (operation.toField base) =
      operation.keys.map (fun key => (key.name, key.type)) ↔ ∀ key ∈ operation.keys, key.name ≠ "input" := by
  rw [fieldKeys_toField]
  constructor
  · intro h
    have hl := congrArg List.length h
    rw [List.length_map, List.length_map, List.length_filter_eq_length_iff] at hl
    simpa using hl
  · intro h
    rw [List.filter_eq_self.2 (by simpa using h)]

end Operation

namespace Synthesis

variable {pass : Synthesis} {output : Output} {schema : Schema} {binding : Binding}

theorem bindingComplaint?_eq_none_iff :
    bindingComplaint? schema binding = none ↔ ∃ field,
      (schema.rootFields binding.root).find? (·.name = binding.operation) = some field ∧
      fieldKeys field = bindingKeys binding ∧
      field.type.isList = decide (binding.cardinality = .list) := by
  unfold bindingComplaint?
  cases (schema.rootFields binding.root).find? (·.name = binding.operation) with
  | none => simp
  | some field =>
    by_cases hk : fieldKeys field = bindingKeys binding
    · simp [hk]
    · simp [hk]

theorem fieldComplaint?_eq_none_iff {bindings : List Binding} {root : RootType} {field : FieldDefinition} :
    fieldComplaint? bindings root field = none ↔
      ∃ binding ∈ bindings, binding.root = root ∧ binding.operation = field.name := by
  simp [fieldComplaint?]

theorem verify_ok_iff :
    pass.verify = .ok () ↔ (∀ binding ∈ pass.bindings, bindingComplaint? pass.schema binding = none) ∧
      ∀ root, ∀ field ∈ pass.schema.rootFields root,
        ∃ binding ∈ pass.bindings, binding.root = root ∧ binding.operation = field.name := by
  have h : pass.verify = .ok () ↔ complaints pass.schema pass.bindings = [] := by
    unfold verify
    cases complaints pass.schema pass.bindings <;> simp
  rw [h]
  simp only [complaints, List.append_eq_nil_iff, List.filterMap_eq_nil_iff, List.flatMap_eq_nil_iff,
    fieldComplaint?_eq_none_iff]
  constructor
  · rintro ⟨hb, hf⟩
    exact ⟨hb, fun root => hf root root.mem_all⟩
  · rintro ⟨hb, hf⟩
    exact ⟨hb, fun root _ => hf root⟩

/-- All that the comparison complains of are conflicts. -/
theorem kind_of_mem_complaints {schema : Schema} {bindings : List Binding} {e : Error}
    (h : e ∈ complaints schema bindings) : e.kind = .conflict := by
  rcases List.mem_append.1 h with h | h
  · obtain ⟨binding, _, hb⟩ := List.mem_filterMap.1 h
    unfold bindingComplaint? at hb
    split at hb
    · cases hb
      rfl
    · split at hb
      · cases hb
        rfl
      · split at hb
        · cases hb
          rfl
        · cases hb
  · obtain ⟨root, _, h⟩ := List.mem_flatMap.1 h
    obtain ⟨field, _, hf⟩ := List.mem_filterMap.1 h
    unfold fieldComplaint? at hf
    split at hf
    · cases hf
    · cases hf
      rfl

theorem finish_conflict (h : pass.verify ≠ .ok ()) : ∃ e, pass.finish = .error e ∧ e.kind = .conflict := by
  cases hc : complaints pass.schema pass.bindings with
  | nil => exact absurd (by rw [verify, hc]) h
  | cons e rest =>
    have hv : pass.verify = .error e := by rw [verify, hc]
    refine ⟨e, ?_, kind_of_mem_complaints (hc ▸ List.mem_cons_self)⟩
    rw [finish, hv]
    rfl

theorem finish_ok_iff :
    pass.finish = .ok output ↔ pass.verify = .ok () ∧ pass.schema.render = .ok output.schema ∧
      output.bindings = pass.bindings ∧ output.tables = pass.tables.map Table.describe ∧
      output.dataSources = pass.tables.map DataSource.ofTable ∧
      output.api = .ofId pass.id
        (pass.authorization.getD (.resolve pass.id ⟨none, none, false⟩ [])) pass.apiSettings := by
  simp only [finish, Except.bind_ok_iff, Except.pure_ok_iff]
  constructor
  · rintro ⟨⟨⟩, hv, text, hr, rfl⟩
    exact ⟨hv, hr, rfl, rfl, rfl, rfl⟩
  · rintro ⟨hv, hr, hb, ht, hd, ha⟩
    refine ⟨⟨⟩, hv, _, hr, ?_⟩
    obtain ⟨schema, bindings, tables, dataSources, api⟩ := output
    subst hb ht hd ha
    rfl

theorem exists_finish_iff :
    (∃ output, pass.finish = .ok output) ↔ pass.verify = .ok () ∧ ∃ text, pass.schema.render = .ok text := by
  simp only [finish, Except.bind_ok_iff, Except.pure_ok_iff]
  constructor
  · rintro ⟨_, ⟨⟩, hv, text, hr, _⟩
    exact ⟨hv, text, hr⟩
  · rintro ⟨hv, text, hr⟩
    exact ⟨_, ⟨⟩, hv, text, hr, rfl⟩

end Synthesis

end TableApi
