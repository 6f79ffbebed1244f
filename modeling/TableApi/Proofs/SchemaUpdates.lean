import TableApi.Proofs.Registry
import TableApi.Synthesis

/-! What an update of a schema or of a pass does when it is not refused. -/
namespace TableApi

/-- The fields stand for the declared attributes, one for one. -/
def Declares (entries : List (String × String)) (fields : List FieldDefinition) : Prop :=
  List.Forall₂ (fun entry field => field.name = entry.1 ∧ field.arguments = [] ∧
    TypeRef.parse? entry.2 = some field.type) entries fields

theorem Declares.arguments_eq_nil {entries : List (String × String)} {fields : List FieldDefinition}
    {field : FieldDefinition} (h : Declares entries fields) (hf : field ∈ fields) : field.arguments = [] := by
  obtain ⟨_, _, _, hnil, _⟩ := forall₂_exists_left h hf
  exact hnil

theorem Key.parseType_ok_iff {text : String} {type : TypeRef} :
    Key.parseType text = .ok type ↔ TypeRef.parse? text = some type := by
  unfold Key.parseType
  cases TypeRef.parse? text <;> simp

theorem FieldDefinition.ofAttributes_ok_iff {attributes : Attributes} {fields : List FieldDefinition} :
    FieldDefinition.ofAttributes attributes = .ok fields ↔ Declares attributes.entries fields := by
  have h : ∀ (entry : String × String) (field : FieldDefinition),
      (do return ⟨entry.1, [], ← Key.parseType entry.2⟩ : Except Error FieldDefinition) = .ok field ↔
        field.name = entry.1 ∧ field.arguments = [] ∧ TypeRef.parse? entry.2 = some field.type := by
    intro entry field
    obtain ⟨name, arguments, type⟩ := field
    simp only [Except.bind_ok_iff, Except.pure_ok_iff, Key.parseType_ok_iff,
      FieldDefinition.mk.injEq]
    constructor
    · rintro ⟨_, ht, rfl, rfl, rfl⟩
      exact ⟨rfl, rfl, ht⟩
    · rintro ⟨rfl, rfl, ht⟩
      exact ⟨type, ht, rfl, rfl, rfl⟩
  rw [ofAttributes, Except.mapM_ok_iff, Declares]
  simp only [h]

/-- The object type of a root without its fields. -/
def RootType.emptyType (root : RootType) : TypeDefinition :=
  ⟨root.typeName, [], .object []⟩

@[simp] theorem RootType.emptyType_name (root : RootType) : root.emptyType.name = root.typeName := rfl

/-- The object type of a table and its input type, as they are registered. -/
def Table.types (table : Table) : Except Error (List TypeDefinition) := do
  let fields ← FieldDefinition.ofAttributes table.attributes
  let object ← TypeDefinition.make table.baseName (.object fields) []
  match table.inputTypeName with
  | none => return [object]
  | some name =>
    let inputFields ← FieldDefinition.ofAttributes table.inputAttributes
    return [object, ← TypeDefinition.make name (.input inputFields) []]

namespace Schema

variable {s t : Schema} {d e : TypeDefinition} {root : RootType} {field : FieldDefinition} {v : Unit}

@[simp] theorem gives_register :
    Gives (register d) s e t ↔ ∃ r, s.registry.register d = .ok (e, r) ∧ t = { s with registry := r } := by
  simp only [register, gives_bind, gives_get, gives_check, gives_set, gives_pure]
  constructor
  · rintro ⟨_, _, ⟨rfl, rfl⟩, ⟨f, r⟩, _, ⟨hr, rfl⟩, _, _, rfl, rfl, rfl⟩
    exact ⟨r, hr, rfl⟩
  · rintro ⟨r, hr, rfl⟩
    exact ⟨s, s, ⟨rfl, rfl⟩, (e, r), s, ⟨hr, rfl⟩, ⟨⟩, _, rfl, rfl, rfl⟩

theorem gives_useRoot :
    Gives (useRoot root) s v t ↔ (root ∈ s.roots ∧ t = s) ∨
      (root ∉ s.roots ∧ ∃ e r, s.registry.register root.emptyType = .ok (e, r) ∧
        t = { s with registry := r, roots := s.roots ++ [root] }) := by
  by_cases h : root ∈ s.roots
  · simp [useRoot, h]
  · simp [useRoot, h, RootType.emptyType]

theorem gives_addRootField :
    Gives (addRootField root field) s v t ↔ ∃ u d, Gives (useRoot root) s ⟨⟩ u ∧
      u.registry.get? root.typeName = some d ∧ d.category = .type ∧
      (∀ f ∈ d.fields, f.name ≠ field.name) ∧
      t = { u with registry := u.registry.addField root.typeName field } := by
  rw [addRootField, gives_bind]
  constructor
  · rintro ⟨_, u, hu, hg⟩
    rw [gives_get_bind] at hg
    split at hg
    · next fields hd =>
      split at hg
      · exact absurd hg (by simp)
      · next hany =>
        refine ⟨u, _, hu, hd, rfl, ?_, gives_set.1 hg⟩
        simpa [TypeDefinition.fields, TypeBody.fields] using hany
    · exact absurd hg (by simp)
  · rintro ⟨u, d, hu, hd, hc, hf, rfl⟩
    obtain ⟨fields, hb⟩ := TypeDefinition.category_eq_type_iff.1 hc
    obtain ⟨name, interfaces, body⟩ := d
    subst hb
    have hany : ¬ fields.any (·.name = field.name) = true := by
      simpa [TypeDefinition.fields, TypeBody.fields] using hf
    refine ⟨⟨⟩, u, hu, ?_⟩
    rw [gives_get_bind]
    simp [hd, hany]

/-- A definition that is made by a check is registered if that succeeds. -/
theorem gives_register_of_check {x : Except Error TypeDefinition} :
    Gives (do register (← (x : Except Error TypeDefinition)) : Updating Schema TypeDefinition) s e t ↔
      ∃ d, x = .ok d ∧ Gives (register d) s e t := by
  simp only [gives_bind, gives_check]
  constructor
  · rintro ⟨d, _, ⟨hd, rfl⟩, hr⟩
    exact ⟨d, hd, hr⟩
  · rintro ⟨d, hd, hr⟩
    exact ⟨d, s, ⟨hd, rfl⟩, hr⟩

theorem gives_register_of_checks {α : Type} {x : Except Error α} {f : α → Except Error TypeDefinition} :
    Gives (do register (← (f (← (x : Except Error α)) : Except Error TypeDefinition)) :
        Updating Schema TypeDefinition) s e t ↔
      ∃ d, x >>= f = .ok d ∧ Gives (register d) s e t := by
  rw [gives_bind]
  simp only [gives_check, gives_register_of_check, Except.bind_ok_iff]
  constructor
  · rintro ⟨a, _, ⟨ha, rfl⟩, d, hd, hr⟩
    exact ⟨d, ⟨a, ha, hd⟩, hr⟩
  · rintro ⟨d, ⟨a, ha, hd⟩, hr⟩
    exact ⟨a, s, ⟨ha, rfl⟩, d, hd, hr⟩

theorem gives_addTable {table : Table} {operations : List Operation} :
    Gives (addTable table operations) s v t ↔ table.baseName ∉ s.tables ∧ ∃ types r u,
      table.types = .ok types ∧ Registry.Registers s.registry types r ∧
      Gives (forM operations fun operation => addRootField operation.root (operation.toField table.baseName))
        { s with registry := r } ⟨⟩ u ∧
      t = { u with tables := u.tables ++ [table.baseName] } := by
  have hobject : ∀ s e t, Gives (addObject table.baseName table.attributes []) s e t ↔ _ :=
    fun s e t => gives_register_of_checks
  have hinput : ∀ name s e t, Gives (addInput name table.inputAttributes) s e t ↔ _ :=
    fun name s e t => gives_register_of_checks
  rw [addTable, gives_get_bind]
  by_cases ht : table.baseName ∈ s.tables
  · simp [ht]
  · simp only [ht, List.contains_eq_mem, decide_false, Bool.false_eq_true, if_false,
      not_false_eq_true, true_and]
    cases hi : table.inputTypeName with
    | none =>
      simp only [hi, hobject, Table.types, gives_bind, gives_register, gives_modify,
        Except.bind_ok_iff, Except.pure_ok_iff]
      constructor
      · rintro ⟨_, _, ⟨d, ⟨fields, hf, hd⟩, r, hr, rfl⟩, _, u, hu, rfl⟩
        exact ⟨[d], r, u, ⟨fields, hf, d, hd, rfl⟩, .cons hr (.nil r), hu, rfl⟩
      · rintro ⟨_, r, u, ⟨fields, hf, d, hd, rfl⟩, hr, hu, rfl⟩
        simp only [Registry.registers_cons_iff, Registry.registers_nil_iff] at hr
        obtain ⟨e, _, hr, rfl⟩ := hr
        exact ⟨e, _, ⟨d, ⟨fields, hf, hd⟩, r, hr, rfl⟩, ⟨⟩, u, hu, rfl⟩
    | some name =>
      simp only [hi, hobject, hinput, Table.types, gives_bind, gives_register, gives_modify,
        Except.bind_ok_iff, Except.pure_ok_iff]
      constructor
      · rintro ⟨_, _, ⟨d, ⟨fields, hf, hd⟩, r, hr, rfl⟩,
          _, _, ⟨e, ⟨inputs, hg, he⟩, q, hq, rfl⟩, _, u, hu, rfl⟩
        exact ⟨[d, e], q, u, ⟨fields, hf, d, hd, inputs, hg, e, he, rfl⟩,
          .cons hr (.cons hq (.nil q)), hu, rfl⟩
      · rintro ⟨_, q, u, ⟨fields, hf, d, hd, inputs, hg, e, he, rfl⟩, hr, hu, rfl⟩
        simp only [Registry.registers_cons_iff, Registry.registers_nil_iff] at hr
        obtain ⟨_, r, hr, _, _, hq, rfl⟩ := hr
        exact ⟨_, _, ⟨d, ⟨fields, hf, hd⟩, r, hr, rfl⟩,
          _, _, ⟨e, ⟨inputs, hg, he⟩, _, hq, rfl⟩, ⟨⟩, u, hu, rfl⟩

end Schema

namespace AuxiliaryTypes

variable {s t : Schema} {v : Unit}

/-- The definition that a declaration stands for. -/
def define (category : TypeCategory) (name : String) (shape : TypeShape) : Except Error TypeDefinition :=
  match category, shape with
  | .enum, .members values => TypeDefinition.make name (.enum values) []
  | .union, .members names => TypeDefinition.make name (.union names) []
  | .enum, _ | .union, _ => .error (.shapeNeedsArray category)
  | _, .members _ => .error (.shapeIsArray category)
  | .type, .definition fields interfaces => do
    TypeDefinition.make name (.object (← FieldDefinition.ofAttributes fields)) interfaces
  | .type, .plain fields => do
    TypeDefinition.make name (.object (← FieldDefinition.ofAttributes fields)) []
  | .input, .definition fields _ | .input, .plain fields => do
    TypeDefinition.make name (.input (← FieldDefinition.ofAttributes fields)) []
  | .interface, .definition fields _ | .interface, .plain fields => do
    TypeDefinition.make name (.interface (← FieldDefinition.ofAttributes fields)) []

/-- The definitions of all declarations, in the order of registration. -/
def definitions (aux : AuxiliaryTypes) : Except Error (List TypeDefinition) :=
  aux.declarations.mapM fun (category, name, shape) => define category name shape

theorem gives_registerOne {category : TypeCategory} {name : String} {shape : TypeShape} {e : TypeDefinition} :
    Gives (registerOne category name shape) s e t ↔
      ∃ d, define category name shape = .ok d ∧ Gives (Schema.register d) s e t := by
  unfold registerOne define
  split
  · exact Schema.gives_register_of_check
  · exact Schema.gives_register_of_check
  · simp
  · simp
  · simp
  all_goals exact Schema.gives_register_of_checks

/-- Types that are declared beside the tables change nothing but the registry. -/
theorem gives_register {aux : AuxiliaryTypes} : Gives aux.register s v t ↔ ∃ types r,
    aux.definitions = .ok types ∧ Registry.Registers s.registry types r ∧ t = { s with registry := r } := by
  unfold register definitions
  generalize aux.declarations = declarations
  induction declarations generalizing s with
  | nil =>
    refine gives_forM_nil.trans ⟨?_, ?_⟩
    · rintro rfl
      exact ⟨[], _, rfl, .nil _, rfl⟩
    · rintro ⟨_, r, ⟨⟩, hr, rfl⟩
      obtain rfl := Registry.registers_nil_iff.1 hr
      rfl
  | cons declaration declarations ih =>
    refine gives_forM_cons.trans ?_
    simp only [gives_bind, gives_pure, gives_registerOne, Schema.gives_register, List.mapM_cons,
      Except.bind_ok_iff, Except.pure_ok_iff]
    constructor
    · rintro ⟨_, ⟨e, _, ⟨d, hd, q, hq, rfl⟩, _, rfl⟩, h⟩
      obtain ⟨types, r, htypes, hr, rfl⟩ := ih.1 h
      exact ⟨_, r, ⟨d, hd, types, htypes, rfl⟩, .cons hq hr, rfl⟩
    · rintro ⟨_, r, ⟨d, hd, types, htypes, rfl⟩, hr, rfl⟩
      obtain ⟨e, q, hq, hr⟩ := Registry.registers_cons_iff.1 hr
      exact ⟨_, ⟨e, _, ⟨d, hd, q, hq, rfl⟩, trivial, rfl⟩, ih.2 ⟨types, r, htypes, hr, rfl⟩⟩

theorem register_registers {aux : AuxiliaryTypes} (h : Gives aux.register s v t) :
    ∃ types r, Registry.Registers s.registry types r ∧ t = { s with registry := r } := by
  obtain ⟨types, r, _, hr, ht⟩ := gives_register.1 h
  exact ⟨types, r, hr, ht⟩

theorem register_empty {aux : AuxiliaryTypes} (h : aux.isEmpty) : Gives aux.register s v t ↔ t = s := by
  have hd : aux.declarations = [] := by
    simp only [isEmpty, OrderedMap.isEmpty, Bool.and_eq_true, List.isEmpty_iff] at h
    simp [declarations, h]
  rw [register, hd]
  exact gives_forM_nil

end AuxiliaryTypes

namespace Synthesis

variable {p q : Synthesis} {v : Unit}

theorem outcome_onSchema {α : Type} {update : Updating Schema α} :
    outcome (onSchema update) p =
      ((outcome update p.schema).1, { p with schema := (outcome update p.schema).2 }) := by
  rw [onSchema, outcome_get_bind]
  have h : update.run.run p.schema = outcome update p.schema := rfl
  rw [h]
  rcases outcome update p.schema with ⟨e | a, t⟩ <;> rfl

theorem gives_onSchema {α : Type} {update : Updating Schema α} {a : α} :
    Gives (onSchema update) p a q ↔ ∃ t, Gives update p.schema a t ∧ q = { p with schema := t } := by
  unfold Gives
  rw [outcome_onSchema]
  rcases outcome update p.schema with ⟨result, t⟩
  simp only [Prod.mk.injEq]
  constructor
  · rintro ⟨rfl, rfl⟩
    exact ⟨t, ⟨rfl, rfl⟩, rfl⟩
  · rintro ⟨_, ⟨rfl, rfl⟩, rfl⟩
    exact ⟨rfl, rfl⟩

theorem gives_addTable {table : Table} :
    Gives (addTable table) p v q ↔ ∃ t, Gives (Schema.addTable table table.plan) p.schema ⟨⟩ t ∧
      q = { p with schema := t, bindings := p.bindings ++ table.bindings table.plan,
                   tables := p.tables ++ [table] } := by
  simp only [addTable, gives_bind, gives_onSchema, gives_modify]
  constructor
  · rintro ⟨_, _, ⟨t, ht, rfl⟩, rfl⟩
    exact ⟨t, ht, rfl⟩
  · rintro ⟨t, ht, rfl⟩
    exact ⟨⟨⟩, _, ⟨t, ht, rfl⟩, rfl⟩

theorem gives_addTypes {types : AuxiliaryTypes} :
    Gives (addTypes types) p v q ↔ ∃ t, Gives types.register p.schema ⟨⟩ t ∧ q = { p with schema := t } :=
  gives_onSchema

/-- Free text is kept even where the schema text that is asked for cannot be written. -/
theorem addText_leaves {text : String} :
    (outcome (addText text) p).2 =
      { p with schema := { p.schema with additions := p.schema.additions ++ [text] } } := by
  have h : outcome (Schema.addText text) p.schema =
      (.ok ⟨⟩, { p.schema with additions := p.schema.additions ++ [text] }) := rfl
  rw [addText, outcome_bind, outcome_onSchema, h]
  generalize { p with schema := { p.schema with additions := p.schema.additions ++ [text] } } = q
  change (outcome (liftM q.definition : Updating Synthesis String) q).2 = q
  cases q.definition <;> rfl

end Synthesis

end TableApi
