import TableApi.Proofs.FirstOfName
import TableApi.Proofs.BuiltTypes
import TableApi.Proofs.WrittenTypes

/-! Which types a schema holds after a run. Under each key it is the first definition that the calls make, and
the types of roots have grown by the fields that were added to them. -/
namespace TableApi

namespace TypeDefinition

variable {d : TypeDefinition} {added : List (RootType × FieldDefinition)} {root : RootType}
  {field : FieldDefinition}

/-- The fields that were added to the root whose name is read as that of the definition. -/
def gained (added : List (RootType × FieldDefinition)) (d : TypeDefinition) : List FieldDefinition :=
  (added.filter fun field => lookupKey field.1.typeName = lookupKey d.name).map Prod.snd

def grown (added : List (RootType × FieldDefinition)) (d : TypeDefinition) : TypeDefinition :=
  match d.body with
  | .object fields => { d with body := .object (fields ++ d.gained added) }
  | _ => d

@[simp] theorem grown_name : (d.grown added).name = d.name := by
  unfold grown
  split <;> rfl

@[simp] theorem grown_category : (d.grown added).category = d.category := by
  unfold grown category
  split
  · next h => simp [h, TypeBody.category]
  · rfl

theorem grown_fields (h : d.category = .type) : (d.grown added).fields = d.fields ++ d.gained added := by
  obtain ⟨fields, hb⟩ := category_eq_type_iff.1 h
  simp [grown, TypeDefinition.fields, hb, TypeBody.fields]

/-- Only object types grow. -/
theorem grown_of_category (h : d.category ≠ .type) : d.grown added = d := by
  unfold grown
  split
  · next hb => exact absurd (category_eq_type_iff.2 ⟨_, hb⟩) h
  · rfl

theorem grown_of_key (h : ∀ field ∈ added, lookupKey field.1.typeName ≠ lookupKey d.name) :
    d.grown added = d := by
  have hgained : d.gained added = [] := by
    simpa [gained, List.filter_eq_nil_iff] using h
  unfold grown
  split
  · next fields hb => rw [hgained, List.append_nil, ← hb]
  · rfl

theorem mem_fields_grown (h : field ∈ (d.grown added).fields) :
    field ∈ d.fields ∨ ∃ root, (root, field) ∈ added := by
  by_cases hc : d.category = .type
  · rw [grown_fields hc] at h
    rcases List.mem_append.1 h with h | h
    · exact .inl h
    · obtain ⟨⟨root, _⟩, hm, rfl⟩ := List.mem_map.1 h
      exact .inr ⟨root, (List.mem_filter.1 hm).1⟩
  · rw [grown_of_category hc] at h
    exact .inl h

theorem fields_subset_grown : d.fields ⊆ (d.grown added).fields := by
  by_cases hc : d.category = .type
  · rw [grown_fields hc]
    exact List.subset_append_left _ _
  · rw [grown_of_category hc]
    exact List.Subset.refl _

theorem grown_concat : d.grown (added ++ [(root, field)]) =
    if lookupKey d.name = lookupKey root.typeName then (d.grown added).addField field
    else d.grown added := by
  obtain ⟨name, interfaces, body⟩ := d
  by_cases hk : lookupKey name = lookupKey root.typeName
  · rw [if_pos hk]
    cases body with
    | object fields => simp [grown, addField, gained, List.filter_append, hk]
    | _ => rfl
  · have hk' : ¬ lookupKey root.typeName = lookupKey name := fun h => hk h.symm
    simp [grown, gained, List.filter_append, hk, hk']

end TypeDefinition

namespace Registry

variable {registry after : Registry} {made types : List TypeDefinition} {d e : TypeDefinition}
  {added : List (RootType × FieldDefinition)} {root : RootType} {field : FieldDefinition} {name : String}

theorem Keyed.definitions_addField (h : registry.Keyed) :
    (registry.addField name field).definitions = registry.definitions.map fun d =>
      if lookupKey d.name = lookupKey name then d.addField field else d := by
  simp only [definitions, Registry.addField, OrderedMap.modify, List.map_map]
  refine List.map_congr_left fun entry he => ?_
  by_cases hk : entry.1 = lookupKey name
  · simp [hk, ← h entry he]
  · simp [hk, ← h entry he]

/-- Of the definitions that were made the registry has the first under each key, in the order in which they
were made. Definitions under one key are of one category, and none has the name of a scalar. -/
structure Filled (registry : Registry) (made : List TypeDefinition)
    (added : List (RootType × FieldDefinition)) : Prop where
  keyed : registry.Keyed
  definitions : registry.definitions = (firstByName (lookupKey ·.name) made).map (TypeDefinition.grown added)
  held : ∀ d ∈ made, registry.Holds d.category d.name
  scalars : ∀ d ∈ made, Scalar.ofName? d.name = none
  roots : ∀ field ∈ added, field.1.emptyType ∈ made

theorem filled_empty : Filled empty [] [] :=
  ⟨keyed_empty, rfl, by simp, by simp, by simp⟩

theorem Filled.get?_eq_none_iff (h : registry.Filled made added) :
    registry.get? name = none ↔ lookupKey name ∉ made.map (lookupKey ·.name) := by
  constructor
  · intro hnone hm
    obtain ⟨d, hd, hk⟩ := List.mem_map.1 hm
    obtain ⟨e, he, _⟩ := h.held d hd
    rw [get?_congr hk, hnone] at he
    cases he
  · intro hm
    by_contra hsome
    obtain ⟨e, he⟩ := Option.ne_none_iff_exists'.1 hsome
    have hdef := h.keyed.get?_mem he
    rw [h.definitions] at hdef
    obtain ⟨d, hd, rfl⟩ := List.mem_map.1 hdef
    have hkey := h.keyed.key_of_get? he
    rw [TypeDefinition.grown_name] at hkey
    exact hm (List.mem_map.2 ⟨d, (firstByName_sublist _ _).subset hd, hkey⟩)

theorem Filled.register (h : registry.Filled made added) (hr : registry.register d = .ok (e, after)) :
    after.Filled (made ++ [d]) added := by
  have hheld : after.Holds d.category d.name := by
    refine ⟨e, register_get? hr, ?_⟩
    obtain ⟨_, ⟨_, rfl, _⟩ | ⟨_, hc, _⟩⟩ := register_ok_iff.1 hr
    · rfl
    · exact hc
  refine ⟨h.keyed.register hr, ?_, ?_, ?_, fun field hf => List.mem_append_left _ (h.roots field hf)⟩
  · obtain ⟨_, ⟨hnone, rfl, rfl⟩ | ⟨hsome, _, rfl⟩⟩ := register_ok_iff.1 hr
    · have hnew := h.get?_eq_none_iff.1 hnone
      have hown : e.grown added = e := by
        refine TypeDefinition.grown_of_key fun field hf hk => hnew ?_
        exact List.mem_map.2 ⟨_, h.roots field hf, hk⟩
      rw [definitions_enter hnone, h.definitions, firstByName_concat, if_neg hnew, List.map_append,
        List.map_singleton, hown]
    · have hold : lookupKey d.name ∈ made.map (lookupKey ·.name) := by
        by_contra hno
        rw [h.get?_eq_none_iff.2 hno] at hsome
        cases hsome
      rw [firstByName_concat, if_pos hold, h.definitions]
  · intro other ho
    rcases List.mem_append.1 ho with ho | ho
    · obtain ⟨held, hget, hc⟩ := h.held other ho
      exact ⟨held, register_keeps hr hget, hc⟩
    · rw [List.mem_singleton.1 ho]
      exact hheld
  · intro other ho
    rcases List.mem_append.1 ho with ho | ho
    · exact h.scalars other ho
    · rw [List.mem_singleton.1 ho]
      exact (register_ok_iff.1 hr).1

theorem Filled.registers (h : registry.Filled made added) (hr : Registers registry types after) :
    after.Filled (made ++ types) added := by
  induction hr generalizing made with
  | nil => rwa [List.append_nil]
  | cons hr _ ih =>
    rw [List.append_cons]
    exact ih (h.register hr)

/-- To make a definition once more changes nothing. -/
theorem Filled.again (h : registry.Filled made added) (hd : d ∈ made) : registry.Filled (made ++ [d]) added := by
  have hmem : ∀ e ∈ made ++ [d], e ∈ made := by
    intro e he
    rcases List.mem_append.1 he with he | he
    · exact he
    · exact List.mem_singleton.1 he ▸ hd
  refine ⟨h.keyed, ?_, fun e he => h.held e (hmem e he), fun e he => h.scalars e (hmem e he),
    fun field hf => List.mem_append_left _ (h.roots field hf)⟩
  rw [firstByName_concat, if_pos (List.mem_map_of_mem hd), h.definitions]

theorem Filled.addField (h : registry.Filled made added) (hroot : root.emptyType ∈ made) :
    (registry.addField root.typeName field).Filled made (added ++ [(root, field)]) := by
  refine ⟨h.keyed.addField, ?_, ?_, h.scalars, ?_⟩
  · rw [h.keyed.definitions_addField, h.definitions, List.map_map]
    refine List.map_congr_left fun d _ => ?_
    rw [Function.comp_apply, TypeDefinition.grown_name, TypeDefinition.grown_concat]
  · intro d hd
    obtain ⟨e, he, hc⟩ := h.held d hd
    by_cases hk : lookupKey d.name = lookupKey root.typeName
    · exact ⟨e.addField field, by simp [hk, he], TypeDefinition.addField_category.trans hc⟩
    · exact ⟨e, by simp [hk, he], hc⟩
  · intro other ho
    rcases List.mem_append.1 ho with ho | ho
    · exact h.roots other ho
    · rw [List.mem_singleton.1 ho]
      exact hroot

/-- Under a name stands the first definition that was made under its key. -/
theorem Filled.get?_eq (h : registry.Filled made added) : registry.get? name =
    (made.find? fun d => lookupKey d.name = lookupKey name).map (TypeDefinition.grown added) := by
  cases hfind : made.find? fun d => lookupKey d.name = lookupKey name with
  | none =>
    rw [Option.map_none, h.get?_eq_none_iff]
    intro hm
    obtain ⟨d, hd, hk⟩ := List.mem_map.1 hm
    exact List.find?_eq_none.1 hfind d hd (decide_eq_true hk)
  | some d =>
    have hk : lookupKey d.name = lookupKey name := by simpa using List.find?_some hfind
    have hfirst : d ∈ firstByName (lookupKey ·.name) made := by
      rw [mem_firstByName_iff, hk]
      exact hfind
    have hdef : d.grown added ∈ registry.definitions := by
      rw [h.definitions]
      exact List.mem_map_of_mem hfirst
    rw [h.keyed.mem_definitions_iff, TypeDefinition.grown_name, get?_congr hk] at hdef
    exact hdef

theorem Filled.exists_made (h : registry.Filled made added) (he : e ∈ registry.definitions) :
    ∃ d ∈ made, d.name = e.name := by
  rw [h.definitions] at he
  obtain ⟨d, hd, rfl⟩ := List.mem_map.1 he
  exact ⟨d, (firstByName_sublist _ _).subset hd, TypeDefinition.grown_name.symm⟩

theorem Filled.category_eq (h : registry.Filled made added) (hd : d ∈ made)
    (hk : lookupKey d.name = lookupKey name) (he : registry.get? name = some e) : e.category = d.category := by
  obtain ⟨held, hget, hc⟩ := h.held d hd
  rw [get?_congr hk, he] at hget
  exact Option.some.inj hget ▸ hc

/-- Definitions of different categories are under different keys. -/
theorem Filled.key_ne (h : registry.Filled made added) (hd : d ∈ made) (he : e ∈ made)
    (hc : d.category ≠ e.category) : lookupKey d.name ≠ lookupKey e.name := by
  intro hk
  obtain ⟨held, hget, hcategory⟩ := h.held e he
  exact hc ((h.category_eq hd hk hget).symm.trans hcategory)

/-- Any definition that was made tells the category of the names under its key. -/
theorem Filled.holds_iff {category : TypeCategory} (h : registry.Filled made added) :
    registry.Holds category name ↔ ∃ d ∈ made, lookupKey d.name = lookupKey name ∧ d.category = category := by
  constructor
  · rintro ⟨e, he, rfl⟩
    rw [h.get?_eq, Option.map_eq_some_iff] at he
    obtain ⟨d, hd, rfl⟩ := he
    exact ⟨d, List.mem_of_find?_eq_some hd, by simpa using List.find?_some hd, by simp⟩
  · rintro ⟨d, hd, hk, rfl⟩
    obtain ⟨e, he, hc⟩ := h.held d hd
    exact ⟨e, get?_congr hk ▸ he, hc⟩

/-- The type of a root has every field that was added to it, under whatever name the type was first made. -/
theorem Filled.exists_gained (h : registry.Filled made added) (hf : (root, field) ∈ added) :
    ∃ d ∈ firstByName (lookupKey ·.name) made, d.category = .type ∧ field ∈ d.gained added := by
  have hroot := h.roots _ hf
  obtain ⟨d, hd, hk⟩ := List.mem_map.1 ((mem_names_firstByName (fun d : TypeDefinition => lookupKey d.name)
    made _).2 (List.mem_map_of_mem hroot))
  obtain ⟨e, he, hc⟩ := h.held d ((firstByName_sublist _ _).subset hd)
  refine ⟨d, hd, hc.symm.trans (h.category_eq hroot hk.symm he), ?_⟩
  exact List.mem_map_of_mem (List.mem_filter.2 ⟨hf, decide_eq_true hk.symm⟩)

/-- The fields of a registry are those of the first definitions and those that were added to roots. -/
theorem Filled.forall_fields_iff {p : FieldDefinition → Prop} (h : registry.Filled made added) :
    (∀ d ∈ registry.definitions, ∀ field ∈ d.fields, p field) ↔
      (∀ d ∈ firstByName (lookupKey ·.name) made, ∀ field ∈ d.fields, p field) ∧ ∀ field ∈ added, p field.2 := by
  rw [h.definitions, List.forall_mem_map]
  constructor
  · intro hall
    refine ⟨fun d hd field hf => hall d hd field (TypeDefinition.fields_subset_grown hf), ?_⟩
    rintro ⟨root, field⟩ hf
    obtain ⟨d, hd, hc, hgained⟩ := h.exists_gained hf
    refine hall d hd field ?_
    rw [TypeDefinition.grown_fields hc]
    exact List.mem_append_right _ hgained
  · rintro ⟨hmade, hadded⟩ d hd field hf
    rcases TypeDefinition.mem_fields_grown hf with hf | ⟨root, hf⟩
    · exact hmade d hd field hf
    · exact hadded _ hf

end Registry

namespace Schema

variable {s t : Schema} {made : List TypeDefinition} {added : List (RootType × FieldDefinition)}
  {root : RootType} {field : FieldDefinition} {v : Unit}

/-- The roots in use are those that fields were added to. -/
structure Filled (schema : Schema) (made : List TypeDefinition)
    (added : List (RootType × FieldDefinition)) : Prop where
  registry : schema.registry.Filled made added
  roots : ∀ root, root ∈ schema.roots ↔ ∃ field, (root, field) ∈ added

theorem filled_empty : Filled empty [] [] :=
  ⟨Registry.filled_empty, by simp [empty]⟩

/-- The type of a root is made for each of its fields. All but the first find it there. -/
theorem Filled.addRootField (h : s.Filled made added) (hg : Gives (addRootField root field) s v t) :
    t.Filled (made ++ [root.emptyType]) (added ++ [(root, field)]) := by
  obtain ⟨u, _, hu, _, _, _, rfl⟩ := gives_addRootField.1 hg
  have hadded : ∀ other, (∃ f, (other, f) ∈ added ++ [(root, field)]) ↔ other ∈ s.roots ∨ other = root := by
    simp only [h.roots, List.mem_append, List.mem_singleton, Prod.mk.injEq, exists_or, exists_and_left,
      exists_eq, and_true, implies_true]
  have hmade : root.emptyType ∈ made ++ [root.emptyType] := by simp
  rcases gives_useRoot.1 hu with ⟨hr, rfl⟩ | ⟨_, e, r, hr, rfl⟩
  · obtain ⟨f, hf⟩ := (h.roots root).1 hr
    refine ⟨(h.registry.again (h.registry.roots _ hf)).addField hmade, fun other => ?_⟩
    rw [hadded]
    exact ⟨.inl, fun ho => ho.elim id fun he => he ▸ hr⟩
  · refine ⟨(h.registry.register hr).addField hmade, fun other => ?_⟩
    rw [hadded, List.mem_append, List.mem_singleton]

theorem Filled.addRootFields {base : String} {operations : List Operation} (h : s.Filled made added)
    (hg : Gives (forM operations fun operation =>
      Schema.addRootField operation.root (operation.toField base)) s v t) :
    t.Filled (made ++ operations.map (·.root.emptyType)) (added ++ rootFieldsOf base operations) := by
  induction operations generalizing s made added with
  | nil =>
    obtain rfl := gives_forM_nil.1 hg
    simpa [rootFieldsOf] using h
  | cons operation operations ih =>
    obtain ⟨u, hu, hg⟩ := gives_forM_cons.1 hg
    simpa [rootFieldsOf] using ih (h.addRootField hu) hg

end Schema

/-- The definitions that a call makes: the types of a table and of the roots of its operations, or the
declared types. -/
def Call.definitions : Call → Except Error (List TypeDefinition)
  | .table added => do return (← added.types) ++ added.plan.map (·.root.emptyType)
  | .types declared => declared.definitions
  | .text _ => .ok []

/-- The names of the types that a call brings, in order. -/
def Call.names : Call → List String
  | .table added => added.typeNames ++ added.plan.map (·.root.typeName)
  | .types declared => declared.declarations.map fun (_, name, _) => TypeDefinition.strippedName name
  | .text _ => []

/-- A table that is added comes from a declaration. -/
def Call.Accepted : Call → Prop
  | .table added => added.Accepted
  | .types _ | .text _ => True

theorem TypeDefinition.make_ok {text : String} {body : TypeBody} {interfaces : List String}
    {d : TypeDefinition} (h : make text body interfaces = .ok d) : d = ⟨strippedName text, interfaces, body⟩ := by
  have husable : ∀ name, usableName text = .ok name → name = strippedName text := by
    intro name hn
    simp only [usableName] at hn
    split at hn
    · exact (Except.ok.inj hn).symm
    · cases hn
  unfold make at h
  obtain ⟨name, hname, h⟩ := Except.bind_ok_iff.1 h
  obtain rfl := husable name hname
  cases body with
  | enum values =>
    dsimp only at h
    split at h
    · cases h
    · exact (Except.pure_ok_iff.1 h).symm
  | _ => exact (Except.pure_ok_iff.1 h).symm

/-- A declared type has the usable part of its name, and fields without arguments. -/
theorem AuxiliaryTypes.define_ok {category : TypeCategory} {name : String} {shape : TypeShape}
    {d : TypeDefinition} (h : define category name shape = .ok d) :
    d.name = TypeDefinition.strippedName name ∧ d.category = category ∧
      ∀ field ∈ d.fields, field.arguments = [] := by
  unfold define at h
  split at h
  · rw [TypeDefinition.make_ok h]
    exact ⟨rfl, rfl, fun field hf => absurd hf List.not_mem_nil⟩
  · rw [TypeDefinition.make_ok h]
    exact ⟨rfl, rfl, fun field hf => absurd hf List.not_mem_nil⟩
  · cases h
  · cases h
  · cases h
  all_goals
    obtain ⟨fields, hfields, h⟩ := Except.bind_ok_iff.1 h
    rw [TypeDefinition.make_ok h]
    have hdeclares := FieldDefinition.ofAttributes_ok_iff.1 hfields
    exact ⟨rfl, rfl, fun field hf => hdeclares.arguments_eq_nil hf⟩

namespace Call

variable {call : Call} {definitions : List TypeDefinition}

theorem definitions_names (ha : call.Accepted) (h : call.definitions = .ok definitions) :
    definitions.map TypeDefinition.name = call.names := by
  cases call with
  | table added =>
    simp only [Call.definitions, Except.bind_ok_iff, Except.pure_ok_iff] at h
    obtain ⟨types, htypes, rfl⟩ := h
    rw [List.map_append, Table.types_names (Table.Accepted.legalName ha) htypes, List.map_map]
    rfl
  | types declared =>
    exact Except.map_eq_of_mapM_ok h fun _ _ hd => (AuxiliaryTypes.define_ok hd).1
  | text added =>
    obtain rfl := Except.ok.inj h
    rfl

/-- The fields of types take arguments only once they are added to roots. -/
theorem definitions_arguments (ha : call.Accepted) (h : call.definitions = .ok definitions) :
    ∀ d ∈ definitions, ∀ field ∈ d.fields, field.arguments = [] := by
  cases call with
  | table added =>
    simp only [Call.definitions, Except.bind_ok_iff, Except.pure_ok_iff] at h
    obtain ⟨types, htypes, rfl⟩ := h
    intro d hd field hf
    rcases List.mem_append.1 hd with hd | hd
    · obtain ⟨fields, hdeclares, ⟨_, rfl⟩ | ⟨_, inputs, _, hinputs, rfl⟩⟩ :=
        (Table.types_ok_iff (Table.Accepted.legalName ha)).1 htypes
      · rw [List.mem_singleton.1 hd] at hf
        exact hdeclares.arguments_eq_nil hf
      · rcases List.mem_pair.1 hd with rfl | rfl
        · exact hdeclares.arguments_eq_nil hf
        · exact hinputs.arguments_eq_nil hf
    · obtain ⟨operation, _, rfl⟩ := List.mem_map.1 hd
      cases hf
  | types declared =>
    intro d hd
    obtain ⟨declaration, _, hdefine⟩ := Except.exists_of_mapM_ok h hd
    exact (AuxiliaryTypes.define_ok hdefine).2.2
  | text added =>
    obtain rfl := Except.ok.inj h
    simp

theorem flatten_names {calls : List Call} {made : List (List TypeDefinition)}
    (ha : ∀ call ∈ calls, call.Accepted) (h : calls.mapM Call.definitions = .ok made) :
    made.flatten.map TypeDefinition.name = calls.flatMap Call.names := by
  rw [Except.mapM_ok_iff] at h
  induction h with
  | nil => rfl
  | cons hcall _ ih =>
    rw [List.forall_mem_cons] at ha
    rw [List.flatten_cons, List.map_append, List.flatMap_cons, definitions_names ha.1 hcall, ih ha.2]

theorem flatten_arguments {calls : List Call} {made : List (List TypeDefinition)}
    (ha : ∀ call ∈ calls, call.Accepted) (h : calls.mapM Call.definitions = .ok made) :
    ∀ d ∈ made.flatten, ∀ field ∈ d.fields, field.arguments = [] := by
  intro d hd
  obtain ⟨definitions, hm, hd⟩ := List.mem_flatten.1 hd
  obtain ⟨call, hc, hcall⟩ := Except.exists_of_mapM_ok h hm
  exact definitions_arguments (ha call hc) hcall d hd

end Call

namespace Schema

variable {s t : Schema} {made : List TypeDefinition} {added : List (RootType × FieldDefinition)} {v : Unit}

theorem Filled.addOperations {table : Table} {operations : List Operation} (h : s.Filled made added)
    (hg : Gives (Schema.addTable table operations) s v t) : ∃ types, table.types = .ok types ∧
      t.Filled (made ++ (types ++ operations.map (·.root.emptyType)))
        (added ++ rootFieldsOf table.baseName operations) := by
  obtain ⟨_, types, r, u, htypes, hr, hu, rfl⟩ := gives_addTable.1 hg
  have hregistered : Filled { s with registry := r } (made ++ types) added :=
    ⟨h.registry.registers hr, h.roots⟩
  have hadded := hregistered.addRootFields hu
  rw [List.append_assoc] at hadded
  exact ⟨types, htypes, hadded.registry, hadded.roots⟩

theorem Filled.addTable {table : Table} (h : s.Filled made added)
    (hg : Gives (addTable table table.plan) s v t) :
    ∃ definitions, (Call.table table).definitions = .ok definitions ∧
      t.Filled (made ++ definitions) (added ++ rootFieldsOf table.baseName table.plan) := by
  obtain ⟨types, htypes, hfilled⟩ := h.addOperations hg
  exact ⟨_, by simp [Call.definitions, htypes], hfilled⟩

theorem Filled.addTypes {types : AuxiliaryTypes} (h : s.Filled made added)
    (hg : Gives types.register s v t) :
    ∃ definitions, (Call.types types).definitions = .ok definitions ∧ t.Filled (made ++ definitions) added := by
  obtain ⟨definitions, r, hdefinitions, hr, rfl⟩ := AuxiliaryTypes.gives_register.1 hg
  exact ⟨definitions, hdefinitions, h.registry.registers hr, h.roots⟩

end Schema

theorem Run.filled {pass last : Synthesis} {calls : List Call} {made : List TypeDefinition}
    {all : List Planned} (h : Run pass calls last)
    (hf : pass.schema.Filled made (all.map Planned.rootField)) :
    ∃ definitions, calls.mapM Call.definitions = .ok definitions ∧
      last.schema.Filled (made ++ definitions.flatten)
        ((all ++ calls.flatMap Call.planned).map Planned.rootField) := by
  simp only [Except.mapM_ok_iff]
  induction h generalizing made all with
  | nil => exact ⟨[], .nil, by simpa using hf⟩
  | table hg _ ih =>
    obtain ⟨t, ht, rfl⟩ := Synthesis.gives_addTable.1 hg
    obtain ⟨definitions, hdefinitions, hadded⟩ := hf.addTable ht
    rw [← Planned.map_rootField_ofTable, ← List.map_append] at hadded
    obtain ⟨later, hlater, hlast⟩ := ih hadded
    exact ⟨definitions :: later, .cons hdefinitions hlater, by simpa [Call.planned] using hlast⟩
  | types hg _ ih =>
    obtain ⟨t, ht, rfl⟩ := Synthesis.gives_addTypes.1 hg
    obtain ⟨definitions, hdefinitions, hadded⟩ := hf.addTypes ht
    obtain ⟨later, hlater, hlast⟩ := ih hadded
    exact ⟨definitions :: later, .cons hdefinitions hlater, by simpa [Call.planned] using hlast⟩
  | text _ ih =>
    rw [Synthesis.addText_leaves] at ih
    obtain ⟨later, hlater, hlast⟩ := ih ⟨hf.registry, hf.roots⟩
    exact ⟨[] :: later, .cons rfl hlater, by simpa [Call.planned] using hlast⟩

theorem Run.filled_start {id : String} {authorization : Option Authorization} {settings : Settings}
    {last : Synthesis} {calls : List Call} (h : Run (.start id authorization settings) calls last) :
    ∃ definitions, calls.mapM Call.definitions = .ok definitions ∧
      last.schema.Filled definitions.flatten ((calls.flatMap Call.planned).map Planned.rootField) := by
  have hstart : (Synthesis.start id authorization settings).schema.Filled []
      (([] : List Planned).map Planned.rootField) := Schema.filled_empty
  simpa using h.filled hstart

end TableApi
