import Mathlib.Data.List.Nodup
import TableApi.Proofs.Plan
import TableApi.Proofs.Verification

/-! Bindings and root fields of a finished pass are the operations of its tables, one for one. -/
namespace TableApi

/-- An operation of the plan of a table. -/
abbrev Planned := Table × Operation

namespace Planned

def ofTable (table : Table) : List Planned :=
  table.plan.map (table, ·)

def binding (planned : Planned) : Binding :=
  planned.1.bindingOf planned.2

def rootField (planned : Planned) : RootType × FieldDefinition :=
  (planned.2.root, planned.2.toField planned.1.baseName)

theorem map_binding_ofTable {table : Table} : (ofTable table).map binding = table.bindings table.plan := by
  rw [ofTable, List.map_map]
  rfl

theorem map_rootField_ofTable {table : Table} :
    (ofTable table).map rootField = Schema.rootFieldsOf table.baseName table.plan := by
  rw [ofTable, List.map_map]
  rfl

theorem mem_ofTable_iff {table : Table} {planned : Planned} :
    planned ∈ ofTable table ↔ planned.1 = table ∧ planned.2 ∈ table.plan := by
  obtain ⟨t, o⟩ := planned
  simp only [ofTable, List.mem_map, Prod.mk.injEq]
  constructor
  · rintro ⟨_, ho, rfl, rfl⟩
    exact ⟨rfl, ho⟩
  · rintro ⟨rfl, ho⟩
    exact ⟨o, ho, rfl, rfl⟩

theorem mem_tables_iff {tables : List Table} {planned : Planned} :
    planned ∈ tables.flatMap ofTable ↔ planned.1 ∈ tables ∧ planned.2 ∈ planned.1.plan := by
  simp only [List.mem_flatMap, mem_ofTable_iff]
  constructor
  · rintro ⟨_, ht, rfl, ho⟩
    exact ⟨ht, ho⟩
  · rintro ⟨ht, ho⟩
    exact ⟨_, ht, rfl, ho⟩

theorem fieldsOf_map_rootField {root : RootType} {all : List Planned} :
    fieldsOf root (all.map rootField) =
      (all.filter (·.2.root = root)).map fun planned => planned.2.toField planned.1.baseName := by
  rw [fieldsOf, List.filter_map, List.map_map]
  rfl

end Planned

/-- The binding is the resolver of the operation, on the data source of its table. -/
structure Serves (binding : Binding) (planned : Planned) : Prop where
  operation : binding.operation = planned.2.name
  root : binding.root = planned.2.root
  cardinality : binding.cardinality = planned.2.cardinality
  keys : binding.keys = planned.2.keys
  index : binding.index = planned.2.index
  dataSource : binding.dataSource = planned.1.dataSourceName

theorem Planned.serves (planned : Planned) : Serves planned.binding planned :=
  ⟨rfl, rfl, rfl, rfl, rfl, rfl⟩

/-- The field takes the keys of the operation in order, then the input if there is one, and an argument
`input` for nothing else. It gives items of the table, a list where the operation does. -/
structure Exposes (field : FieldDefinition) (planned : Planned) : Prop where
  name : field.name = planned.2.name
  arguments : field.arguments = planned.2.keys.map (fun key => ⟨key.name, key.type⟩) ++
    (planned.2.input.map fun input => ⟨"input", .named input⟩).toList
  input : (∃ argument ∈ field.arguments, argument.name = "input") ↔ planned.2.input.isSome
  type : field.type.name = planned.1.baseName
  list : field.type.isList ↔ planned.2.cardinality = .list

theorem Planned.exposes {planned : Planned} (h : ∀ key ∈ planned.2.keys, key.name ≠ "input") :
    Exposes (planned.2.toField planned.1.baseName) planned := by
  refine ⟨rfl, rfl, ?_, Operation.toField_type_name, by simp [Operation.toField_isList]⟩
  cases hi : planned.2.input with
  | none =>
    simp only [Operation.toField, hi, Option.map_none, Option.toList_none, List.append_nil,
      List.mem_map, Option.isSome_none, Bool.false_eq_true, iff_false]
    rintro ⟨_, ⟨key, hk, rfl⟩, hn⟩
    exact h key hk hn
  | some input => simp [Operation.toField, hi]

/-- A call on a pass. -/
inductive Call where
  | table (table : Table)
  | types (types : AuxiliaryTypes)
  | text (text : String)

/-- The operations that a call plans. -/
def Call.planned : Call → List Planned
  | .table added => Planned.ofTable added
  | .types _ | .text _ => []

/-- The calls are made one after another. None is refused, but texts may come to stand in a schema whose
text cannot be written. -/
inductive Run : Synthesis → List Call → Synthesis → Prop
  | nil (pass : Synthesis) : Run pass [] pass
  | table {pass next last : Synthesis} {table : Table} {calls : List Call} :
      Gives (Synthesis.addTable table) pass () next → Run next calls last →
      Run pass (.table table :: calls) last
  | types {pass next last : Synthesis} {types : AuxiliaryTypes} {calls : List Call} :
      Gives (Synthesis.addTypes types) pass () next → Run next calls last →
      Run pass (.types types :: calls) last
  | text {pass last : Synthesis} {text : String} {calls : List Call} :
      Run (outcome (Synthesis.addText text) pass).2 calls last → Run pass (.text text :: calls) last

namespace Synthesis

variable {pass next : Synthesis} {all : List Planned}

/-- The pass has bound the operations, and their fields are at the end of those of its roots. -/
structure Follows (pass : Synthesis) (all : List Planned) : Prop where
  bindings : pass.bindings = all.map Planned.binding
  aligned : pass.schema.Aligned (all.map Planned.rootField)

theorem follows_start {id : String} {authorization : Option Authorization} {settings : Settings} :
    Follows (start id authorization settings) [] :=
  ⟨rfl, Schema.aligned_empty⟩

theorem Follows.addTable {table : Table} (h : pass.Follows all) (hg : Gives (addTable table) pass () next) :
    next.Follows (all ++ Planned.ofTable table) := by
  obtain ⟨t, ht, rfl⟩ := gives_addTable.1 hg
  refine ⟨?_, ?_⟩
  · rw [List.map_append, Planned.map_binding_ofTable, h.bindings]
  · rw [List.map_append, Planned.map_rootField_ofTable]
    exact h.aligned.addTable ht

theorem Follows.addTypes {types : AuxiliaryTypes} (h : pass.Follows all)
    (hg : Gives (addTypes types) pass () next) : next.Follows all := by
  obtain ⟨t, ht, rfl⟩ := gives_addTypes.1 hg
  obtain ⟨_, r, hr, rfl⟩ := AuxiliaryTypes.register_registers ht
  exact ⟨h.bindings, h.aligned.registers hr⟩

theorem Follows.addText {text : String} (h : pass.Follows all) :
    (outcome (addText text) pass).2.Follows all := by
  rw [addText_leaves]
  exact ⟨h.bindings, h.aligned.of_keeps rfl fun _ _ he => he⟩

end Synthesis

theorem Run.follows {pass last : Synthesis} {calls : List Call} {all : List Planned}
    (h : Run pass calls last) (ha : pass.Follows all) : last.Follows (all ++ calls.flatMap Call.planned) := by
  induction h generalizing all with
  | nil => simpa using ha
  | table hg _ ih => simpa [Call.planned] using ih (ha.addTable hg)
  | types hg _ ih => simpa [Call.planned] using ih (ha.addTypes hg)
  | text _ ih => simpa [Call.planned] using ih ha.addText

namespace Synthesis

variable {pass : Synthesis} {all : List Planned}

/-- The comparison rules out what a type of the root's name had before. -/
theorem Follows.rootFields (h : pass.Follows all) (hv : pass.verify = .ok ()) (root : RootType) :
    pass.schema.rootFields root =
      (all.filter (·.2.root = root)).map fun planned => planned.2.toField planned.1.baseName := by
  obtain ⟨earlier, hf, hdisjoint⟩ := h.aligned.fields root
  have hnil : earlier = [] := by
    refine List.eq_nil_iff_forall_not_mem.2 ?_
    intro e he
    -- no operation of the root has the name of an earlier field, but a binding answers to it
    obtain ⟨binding, hb, hroot, hname⟩ :=
      (verify_ok_iff.1 hv).2 root e (hf ▸ List.mem_append_left _ he)
    rw [h.bindings] at hb
    obtain ⟨planned, hp, rfl⟩ := List.mem_map.1 hb
    have hm : planned.rootField ∈ all.map Planned.rootField := List.mem_map_of_mem hp
    have hown : planned.rootField.2 ∈ fieldsOf root (all.map Planned.rootField) :=
      mem_fieldsOf_iff.2 (hroot ▸ hm)
    exact hdisjoint e he _ hown hname.symm
  rw [hf, hnil, List.nil_append, Planned.fieldsOf_map_rootField]

/-- Under the name of an operation the field of that operation is found. -/
theorem Follows.find?_rootField (h : pass.Follows all)
    (hfields : ∀ root, pass.schema.rootFields root =
      (all.filter (·.2.root = root)).map fun planned => planned.2.toField planned.1.baseName)
    {planned : Planned} (hp : planned ∈ all) :
    (pass.schema.rootFields planned.2.root).find? (·.name = planned.2.name) =
      some (planned.2.toField planned.1.baseName) := by
  rw [hfields]
  cases hfind : ((all.filter (·.2.root = planned.2.root)).map fun planned =>
      planned.2.toField planned.1.baseName).find? (·.name = planned.2.name) with
  | none =>
    have hmem : planned ∈ all.filter (·.2.root = planned.2.root) :=
      List.mem_filter.2 ⟨hp, decide_eq_true rfl⟩
    have hne := List.find?_eq_none.1 hfind _ (List.mem_map.2 ⟨planned, hmem, rfl⟩)
    exact absurd (decide_eq_true rfl) hne
  | some field =>
    obtain ⟨other, ho, rfl⟩ := List.mem_map.1 (List.mem_of_find?_eq_some hfind)
    obtain ⟨ho, hroot⟩ := List.mem_filter.1 ho
    have hname := List.find?_some hfind
    rw [decide_eq_true_eq] at hname
    have hsame : other.rootField = planned.rootField :=
      List.inj_on_of_nodup_map h.aligned.distinct (List.mem_map_of_mem ho) (List.mem_map_of_mem hp)
        (Prod.ext (of_decide_eq_true hroot) hname)
    exact congrArg some (congrArg Prod.snd hsame)

/-- The comparison rules out keys with the name of the input. -/
theorem Follows.keys_ne_input (h : pass.Follows all) (hv : pass.verify = .ok ()) {planned : Planned}
    (hp : planned ∈ all) : ∀ key ∈ planned.2.keys, key.name ≠ "input" := by
  have hb : planned.binding ∈ pass.bindings := h.bindings ▸ List.mem_map_of_mem hp
  obtain ⟨field, hfind, hkeys, _⟩ := bindingComplaint?_eq_none_iff.1 ((verify_ok_iff.1 hv).1 _ hb)
  obtain rfl := Option.some.inj ((h.find?_rootField (h.rootFields hv) hp).symm.trans hfind)
  exact Operation.fieldKeys_toField_eq_iff.1 hkeys

/-- Nothing else is found wrong in a pass whose roots have no fields but those of its operations. -/
theorem Follows.verify_ok (h : pass.Follows all)
    (hfields : ∀ root, pass.schema.rootFields root =
      (all.filter (·.2.root = root)).map fun planned => planned.2.toField planned.1.baseName)
    (hkeys : ∀ planned ∈ all, ∀ key ∈ planned.2.keys, key.name ≠ "input") : pass.verify = .ok () := by
  rw [verify_ok_iff, h.bindings]
  refine ⟨?_, ?_⟩
  · intro binding hb
    obtain ⟨planned, hp, rfl⟩ := List.mem_map.1 hb
    refine bindingComplaint?_eq_none_iff.2 ⟨_, h.find?_rootField hfields hp, ?_, ?_⟩
    · exact Operation.fieldKeys_toField_eq_iff.2 (hkeys planned hp)
    · exact Operation.toField_isList
  · intro root field hf
    rw [hfields] at hf
    obtain ⟨planned, hp, rfl⟩ := List.mem_map.1 hf
    obtain ⟨hp, hroot⟩ := List.mem_filter.1 hp
    exact ⟨planned.binding, List.mem_map_of_mem hp, of_decide_eq_true hroot, rfl⟩

end Synthesis

/-- Schema and resolvers, which are derived apart, agree with each other and with the plans. -/
theorem Run.finish_agrees {id : String} {authorization : Option Authorization} {settings : Settings}
    {calls : List Call} {pass : Synthesis} {output : Output}
    (h : Run (.start id authorization settings) calls pass) (hf : pass.finish = .ok output) :
    List.Forall₂ Serves output.bindings (calls.flatMap Call.planned) ∧
      (∀ root, List.Forall₂ Exposes (pass.schema.rootFields root)
        ((calls.flatMap Call.planned).filter (·.2.root = root))) ∧
      (output.bindings.map fun binding => (binding.root, binding.operation)).Nodup := by
  have ha := h.follows Synthesis.follows_start
  rw [List.nil_append] at ha
  obtain ⟨hv, _, hb, _⟩ := Synthesis.finish_ok_iff.1 hf
  rw [hb, ha.bindings]
  refine ⟨?_, ?_, ?_⟩
  · rw [List.forall₂_map_left_iff, List.forall₂_same]
    exact fun planned _ => planned.serves
  · intro root
    rw [ha.rootFields hv, List.forall₂_map_left_iff, List.forall₂_same]
    intro planned hp
    exact Planned.exposes (ha.keys_ne_input hv (List.mem_filter.1 hp).1)
  · have hd := ha.aligned.distinct
    rw [List.map_map] at hd ⊢
    exact hd

/-- A table for examples: the dogs of an owner, told apart by their names. -/
def dogs : Table where
  baseName := "Dog"
  displayName := "Dog"
  primary := ⟨⟨"owner", .single "ID" true, .partition⟩, some ⟨"name", .named "String", .sort⟩⟩
  localIndexes := []
  globalIndexes := []
  attributes := .ofList [("owner", "ID!"), ("name", "String"), ("breed", "String")]
  flags := ⟨true, false, true, true, true⟩
  settings := .default

theorem dogs_agree : ∃ pass output,
    Run (.start "Pets" none []) [.text "# Pets", .table dogs, .types .empty] pass ∧
      pass.finish = .ok output ∧
      List.Forall₂ Serves output.bindings (Planned.ofTable dogs) ∧
      (∀ root, List.Forall₂ Exposes (pass.schema.rootFields root)
        ((Planned.ofTable dogs).filter (·.2.root = root))) ∧
      (output.bindings.map fun binding => (binding.root, binding.operation)).Nodup := by
  obtain ⟨pass, hrun, hfinish⟩ : ∃ pass : Synthesis,
      Run (.start "Pets" none []) [.text "# Pets", .table dogs, .types .empty] pass ∧
        pass.finish.toOption.any fun _ => decide True :=
    ⟨_, .text (.table (gives_of_ok (by decide +kernel)) (.types (gives_of_ok (by decide +kernel)) (.nil _))),
      by decide +kernel⟩
  obtain ⟨output, hf, _⟩ := Except.exists_ok_of_decide hfinish
  exact ⟨pass, output, hrun, hf, hrun.finish_agrees hf⟩

end TableApi
