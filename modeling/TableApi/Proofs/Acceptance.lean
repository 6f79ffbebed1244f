import TableApi.Proofs.BuiltTypes
import TableApi.Proofs.Rendering

/-! Which tables a pass accepts, where the names of their types are free of conflicts. -/
namespace TableApi

section Names

variable {tables : List Table} {table : Table}

/-- What tells root fields apart. -/
def fieldNames (added : List (RootType × FieldDefinition)) : List (RootType × String) :=
  added.map fun field => (field.1, field.2.name)

theorem fieldNames_append {added later : List (RootType × FieldDefinition)} :
    fieldNames (added ++ later) = fieldNames added ++ fieldNames later :=
  List.map_append

theorem fieldNames_planned :
    fieldNames (plannedFields tables) =
      tables.flatMap fun table => table.plan.map fun operation => (operation.root, operation.name) := by
  simp only [fieldNames, plannedFields, List.map_flatMap, List.map_map, Planned.ofTable]
  rfl

/-- Root fields are all told apart exactly where no two tables plan operations of one name. -/
theorem fieldNames_nodup_iff : (fieldNames (plannedFields tables)).Nodup ↔
    tables.Pairwise fun a b => ∀ o ∈ a.plan, ∀ p ∈ b.plan, o.name ≠ p.name := by
  have hplan : ∀ table : Table, (table.plan.map fun operation => (operation.root, operation.name)).Nodup := by
    intro table
    have hn := table.plan_names_nodup
    rw [show table.plan.map Operation.name =
      (table.plan.map fun operation => (operation.root, operation.name)).map Prod.snd by
        rw [List.map_map]; rfl] at hn
    exact List.Nodup.of_map _ hn
  have hdisjoint : Function.onFun List.Disjoint
      (fun table : Table => table.plan.map fun operation => (operation.root, operation.name)) =
      fun a b => ∀ o ∈ a.plan, ∀ p ∈ b.plan, o.name ≠ p.name := by
    funext a b
    simp only [Function.onFun, List.disjoint_iff_ne, List.forall_mem_map, ne_eq, Prod.mk.injEq, not_and,
      eq_iff_iff]
    refine forall₂_congr fun o ho => forall₂_congr fun p hp => ⟨?_, fun hne _ => hne⟩
    intro h hname
    exact h ((Table.candidate_of_mem_plan ho).root_eq_of_name (Table.candidate_of_mem_plan hp) hname) hname
  rw [fieldNames_planned, List.nodup_flatMap, hdisjoint]
  exact and_iff_right fun table _ => hplan table

/-- The types that a table names: those of its attributes and of the keys that its operations ask for. -/
def Table.referencedTypes (table : Table) : List String :=
  table.attributes.entries.filterMap (fun entry => (TypeRef.parse? entry.2).map TypeRef.name) ++
    table.plan.flatMap fun operation => operation.keys.map fun key => key.type.name

theorem Apart.of_free (hn : ((tables.flatMap Table.typeNames).map lookupKey).Nodup)
    (hr : ∀ name ∈ tables.flatMap Table.typeNames, lookupKey name ∉ ["query", "mutation", "subscription"]) :
    Apart tables := by
  have hroot : ∀ root : RootType, lookupKey root.typeName ∈ ["query", "mutation", "subscription"] := by
    intro root
    cases root <;> decide
  rw [apart_iff, registeredNames, List.map_append, List.nodup_append]
  refine ⟨hn, rootKeys_nodup, ?_⟩
  rintro _ ha _ hb rfl
  obtain ⟨name, hname, he⟩ := List.mem_map.1 ha
  rw [List.map_map] at hb
  obtain ⟨root, _, hk⟩ := List.mem_map.1 hb
  exact hr name hname (he ▸ hk ▸ hroot root)

end Names

theorem Declares.knows {entries : List (String × String)} {fields : List FieldDefinition}
    {registry : Registry} (h : Declares entries fields)
    (hk : ∀ entry ∈ entries, ∀ type, TypeRef.parse? entry.2 = some type → registry.Knows type.name) :
    ∀ field ∈ fields, ∀ name ∈ field.namedTypes, registry.Knows name := by
  intro field hfield name hn
  obtain ⟨entry, he, _, hnil, hparse⟩ := forall₂_exists_left h hfield
  rw [FieldDefinition.namedTypes, hnil, List.map_nil, List.nil_append, List.mem_singleton] at hn
  exact hn ▸ hk entry he _ hparse

theorem Operation.namedTypes_toField {operation : Operation} {base : String} :
    (operation.toField base).namedTypes =
      operation.keys.map (·.type.name) ++ operation.input.toList ++ [base] := by
  rw [FieldDefinition.namedTypes, toField_type_name, toField, List.map_append, List.map_map]
  cases operation.input <;> rfl

theorem Table.input_mem_typeNames {table : Table} {operation : Operation} {name : String}
    (ho : operation ∈ table.plan) (hn : name ∈ operation.input.toList) : name ∈ table.typeNames := by
  refine List.mem_cons_of_mem _ ?_
  rcases (candidate_of_mem_plan ho).input_eq with hi | hi
  · rw [hi] at hn
    cases hn
  · exact hi ▸ hn

namespace Schema

variable {s : Schema} {done tables : List Table} {added : List (RootType × FieldDefinition)}
  {root : RootType} {field : FieldDefinition} {table : Table}

theorem Built.exists_addRootField (h : s.Built done added)
    (hfree : ∀ table ∈ done, ∀ n ∈ table.typeNames, lookupKey n ≠ lookupKey root.typeName)
    (hn : (fieldNames (added ++ [(root, field)])).Nodup) :
    ∃ t, Gives (Schema.addRootField root field) s () t := by
  obtain ⟨u, hu⟩ : ∃ u, Gives (Schema.useRoot root) s () u := by
    by_cases hr : root ∈ s.roots
    · exact ⟨s, gives_useRoot.2 (.inl ⟨hr, rfl⟩)⟩
    · have hnone : s.registry.get? root.emptyType.name = none := by
        refine h.get?_eq_none hfree fun other ho hk => ?_
        rw [RootType.emptyType_name, RootType.key_eq_iff] at hk
        exact hr (hk ▸ ho)
      have hscalar : Scalar.ofName? root.emptyType.name = none := by
        cases root <;> decide
      have hreg : s.registry.register root.emptyType = .ok (root.emptyType, s.registry.enter root.emptyType) :=
        Registry.register_ok_iff.2 ⟨hscalar, .inl ⟨hnone, rfl, rfl⟩⟩
      exact ⟨_, gives_useRoot.2 (.inr ⟨hr, _, _, hreg, rfl⟩)⟩
  obtain ⟨hkeyed, hroots, hdefinitions⟩ := h.useRoot hfree hu
  have hget := hkeyed.mem_definitions_iff.1 ((hdefinitions (rootType added root)).2
    (.inr ⟨root, (hroots root).2 (.inr rfl), rfl⟩))
  refine ⟨_, gives_addRootField.2 ⟨u, _, hu, hget, rfl, ?_, rfl⟩⟩
  intro f hf hname
  rw [fieldNames_append, List.nodup_append] at hn
  have hm : (root, f.name) ∈ fieldNames added :=
    List.mem_map.2 ⟨(root, f), mem_fieldsOf_iff.1 hf, rfl⟩
  exact hn.2.2 _ hm (root, field.name) List.mem_cons_self (by rw [hname])

theorem Built.exists_addRootFields {base : String} {operations : List Operation} (h : s.Built done added)
    (hfree : ∀ operation ∈ operations, ∀ table ∈ done, ∀ n ∈ table.typeNames,
      lookupKey n ≠ lookupKey operation.root.typeName)
    (hn : (fieldNames (added ++ rootFieldsOf base operations)).Nodup) :
    ∃ t, Gives (forM operations fun operation =>
      Schema.addRootField operation.root (operation.toField base)) s () t := by
  induction operations generalizing s added with
  | nil => exact ⟨s, gives_forM_nil.2 rfl⟩
  | cons operation operations ih =>
    rw [List.forall_mem_cons] at hfree
    rw [rootFieldsOf, List.map_cons, List.append_cons] at hn
    have hfirst := hn
    rw [fieldNames_append, List.nodup_append] at hfirst
    obtain ⟨u, hu⟩ := h.exists_addRootField hfree.1 hfirst.1
    obtain ⟨t, ht⟩ := ih (h.addRootField hfree.1 hu) hfree.2 hn
    exact ⟨t, gives_forM_cons.2 ⟨u, hu, ht⟩⟩

theorem Built.exists_addTable (h : s.Built done (plannedFields done)) (ha : table.Accepted)
    (hap : Apart (done ++ [table])) (hs : ∀ n ∈ table.typeNames, Scalar.ofName? n = none)
    (hb : table.baseName ∉ s.tables) (hn : (fieldNames (plannedFields (done ++ [table]))).Nodup) :
    ∃ t, Gives (Schema.addTable table table.plan) s () t := by
  obtain ⟨types, htypes⟩ := ha.exists_types
  have hnames := Table.types_names ha.legalName htypes
  have hwithin := hap.within table (by simp)
  obtain ⟨r, hr⟩ : ∃ r, Registry.Registers s.registry types r := by
    refine Registry.Registers.of_fresh ?_ ?_ ?_
    · rw [← hnames, List.map_map] at hwithin
      exact hwithin
    · exact fun d hd => hs _ (ha.name_of_mem_types htypes hd)
    · exact fun d hd => h.free hap _ (ha.name_of_mem_types htypes hd)
  have hregistered := h.registers ha htypes hwithin (h.free hap) hr
  rw [plannedFields_concat] at hn
  obtain ⟨u, hu⟩ := hregistered.exists_addRootFields (fun operation ho other hm n hn =>
    hap.roots other hm n hn _ (mem_rootsOf_iff.2 ⟨table, by simp, operation, ho, rfl⟩)) hn
  exact ⟨_, gives_addTable.2 ⟨hb, types, r, u, htypes, hr, hu, rfl⟩⟩

/-- The object type of a table is there. -/
theorem Built.exists_object (h : s.Built tables added) (ht : table ∈ tables) :
    ∃ fields, Declares table.attributes.entries fields ∧
      (⟨table.baseName, [], .object fields⟩ : TypeDefinition) ∈ s.registry.definitions := by
  obtain ⟨types, htypes⟩ := (h.accepted table ht).exists_types
  obtain ⟨fields, hf, hor⟩ := (Table.types_ok_iff (h.accepted table ht).legalName).1 htypes
  have hobject : (⟨table.baseName, [], .object fields⟩ : TypeDefinition) ∈ types := by
    rcases hor with ⟨_, rfl⟩ | ⟨_, _, _, _, rfl⟩ <;> exact List.mem_cons_self
  exact ⟨fields, hf, (h.definitions _).2 (.inl ⟨table, ht, types, htypes, hobject⟩)⟩

/-- A root in use has exactly the fields that were added to it. -/
theorem Built.rootFields (h : s.Built done added) (root : RootType) :
    s.rootFields root = fieldsOf root added := by
  by_cases hr : root ∈ s.roots
  · exact rootFields_of_get? hr (h.get?_root hr)
  · rw [rootFields_of_not_mem hr]
    refine (List.eq_nil_iff_forall_not_mem.2 fun f hf => hr ?_).symm
    exact (h.roots root).2 ⟨f, mem_fieldsOf_iff.1 hf⟩

theorem Built.knows_iff {name : String} (h : s.Built tables (plannedFields tables)) :
    s.registry.Knows name ↔
      (Scalar.ofName? name).isSome ∨ lookupKey name ∈ (registeredNames tables).map lookupKey := by
  refine or_congr_right ⟨?_, ?_⟩
  · intro hg
    obtain ⟨d, hd⟩ := Option.isSome_iff_exists.1 hg
    refine List.mem_map.2 ⟨d.name, ?_, h.keyed.key_of_get? hd⟩
    rcases (h.definitions d).1 (h.keyed.get?_mem hd) with ⟨table, ht, types, htypes, hm⟩ | ⟨root, hr, rfl⟩
    · refine List.mem_append_left _ (List.mem_flatMap.2 ⟨table, ht, ?_⟩)
      exact (h.accepted table ht).name_of_mem_types htypes hm
    · refine List.mem_append_right _ (List.mem_map_of_mem ?_)
      exact mem_rootsOf_iff_planned.2 ((h.roots root).1 hr)
  · intro hm
    obtain ⟨other, ho, hk⟩ := List.mem_map.1 hm
    rw [← Registry.get?_congr hk]
    rcases List.mem_append.1 ho with ho | ho
    · obtain ⟨table, ht, hn⟩ := List.mem_flatMap.1 ho
      obtain ⟨types, htypes⟩ := (h.accepted table ht).exists_types
      rw [← Table.types_names (h.accepted table ht).legalName htypes] at hn
      obtain ⟨d, hd, rfl⟩ := List.mem_map.1 hn
      have hdef := (h.definitions d).2 (.inl ⟨table, ht, types, htypes, hd⟩)
      rw [h.keyed.mem_definitions_iff.1 hdef]
      rfl
    · obtain ⟨root, hr, rfl⟩ := List.mem_map.1 ho
      rw [h.get?_root ((h.roots root).2 (mem_rootsOf_iff_planned.1 hr))]
      rfl

theorem Built.knows_typeName {name : String} (h : s.Built tables (plannedFields tables))
    (ht : table ∈ tables) (hn : name ∈ table.typeNames) : s.registry.Knows name := by
  refine h.knows_iff.2 (.inr (List.mem_map_of_mem (List.mem_append_left _ ?_)))
  exact List.mem_flatMap.2 ⟨table, ht, hn⟩

/-- The types that root fields name besides the keys of operations are there in any case. -/
theorem Built.exists_render_iff (h : s.Built tables (plannedFields tables)) :
    (∃ text, s.render = .ok text) ↔
      ∀ table ∈ tables, ∀ name ∈ table.referencedTypes, s.registry.Knows name := by
  rw [Schema.exists_render_iff]
  constructor
  · intro hall table ht name hn
    rcases List.mem_append.1 hn with hn | hn
    · obtain ⟨entry, he, hp⟩ := List.mem_filterMap.1 hn
      obtain ⟨type, htype, rfl⟩ := Option.map_eq_some_iff.1 hp
      obtain ⟨fields, hf, hm⟩ := h.exists_object ht
      obtain ⟨field, hfield, _, _, hparse⟩ := forall₂_exists_right hf he
      obtain rfl := Option.some.inj (htype.symm.trans hparse)
      exact (hall _ hm).2 field hfield _ (List.mem_append_right _ List.mem_cons_self)
    · obtain ⟨operation, ho, hk⟩ := List.mem_flatMap.1 hn
      have hplanned : (operation.root, operation.toField table.baseName) ∈ plannedFields tables :=
        mem_plannedFields_iff.2 ⟨table, ht, operation, ho, rfl, rfl⟩
      have hm := (h.definitions _).2 (.inr ⟨operation.root, (h.roots _).2 ⟨_, hplanned⟩, rfl⟩)
      refine (hall _ hm).2 _ (mem_fieldsOf_iff.2 hplanned) name ?_
      rw [Operation.namedTypes_toField, List.append_assoc]
      exact List.mem_append_left _ hk
  · intro hall d hd
    have hattribute : ∀ table ∈ tables, ∀ entry ∈ table.attributes.entries, ∀ type,
        TypeRef.parse? entry.2 = some type → s.registry.Knows type.name := by
      intro table ht entry he type hp
      refine hall table ht type.name (List.mem_append_left _ (List.mem_filterMap.2 ⟨entry, he, ?_⟩))
      rw [hp, Option.map_some]
    rcases (h.definitions d).1 hd with ⟨table, ht, types, htypes, hm⟩ | ⟨root, _, rfl⟩
    · have hl := (h.accepted table ht).legalName
      obtain ⟨fields, hf, ⟨_, rfl⟩ | ⟨name, inputs, _, hg, rfl⟩⟩ := (Table.types_ok_iff hl).1 htypes
      · rw [List.mem_singleton.1 hm]
        exact ⟨List.forall_mem_nil _, hf.knows (hattribute table ht)⟩
      · rcases List.mem_cons.1 hm with rfl | hm
        · exact ⟨List.forall_mem_nil _, hf.knows (hattribute table ht)⟩
        · rw [List.mem_singleton.1 hm]
          exact ⟨List.forall_mem_nil _, hg.knows fun entry he =>
            hattribute table ht entry (Table.mem_inputAttributes.1 he).1⟩
    · refine ⟨List.forall_mem_nil _, ?_⟩
      intro field hfield name hn
      obtain ⟨table, ht, operation, ho, _, rfl⟩ := mem_plannedFields_iff.1 (mem_fieldsOf_iff.1 hfield)
      rw [Operation.namedTypes_toField, List.mem_append, List.mem_append] at hn
      rcases hn with (hn | hn) | hn
      · exact hall table ht name (List.mem_append_right _ (List.mem_flatMap.2 ⟨operation, ho, hn⟩))
      · exact h.knows_typeName ht (Table.input_mem_typeNames ho hn)
      · exact List.mem_singleton.1 hn ▸ h.knows_typeName ht List.mem_cons_self

end Schema

/-- Tables with free names and operations of their own are added without being refused. -/
theorem exists_run {pass : Synthesis} {done tables : List Table}
    (hb : pass.schema.Built done (plannedFields done)) (hs : pass.Sound) (hdone : pass.tables = done)
    (ha : ∀ table ∈ tables, table.Accepted)
    (hscalar : ∀ table ∈ tables, ∀ n ∈ table.typeNames, Scalar.ofName? n = none)
    (hap : Apart (done ++ tables)) (hn : (fieldNames (plannedFields (done ++ tables))).Nodup) :
    ∃ last, Run pass (tables.map .table) last := by
  induction tables generalizing pass done with
  | nil => exact ⟨pass, .nil pass⟩
  | cons table tables ih =>
    rw [List.forall_mem_cons] at ha hscalar
    rw [List.append_cons] at hap hn
    -- tables of one name would have types of one name as well
    have hnew : table.baseName ∉ pass.schema.tables := by
      rw [hs.tables, hdone]
      intro hm
      obtain ⟨other, ho, he⟩ := List.mem_map.1 hm
      have hne := (List.pairwise_append.1 hap.left.between).2.2 other ho table (by simp)
      exact hne _ List.mem_cons_self _ List.mem_cons_self (congrArg lookupKey he)
    have hfirst : (fieldNames (plannedFields (done ++ [table]))).Nodup := by
      rw [fieldNames_planned, List.flatMap_append] at hn
      rw [fieldNames_planned]
      exact (List.nodup_append.1 hn).1
    obtain ⟨t, ht⟩ := hb.exists_addTable ha.1 hap.left hscalar.1 hnew hfirst
    have hg := Synthesis.gives_addTable (v := ()).2 ⟨t, ht, rfl⟩
    obtain ⟨last, hl⟩ := ih (hb.addTable ha.1 hap.left ht) (hs.addTable hg)
      (congrArg (· ++ [table]) hdone) ha.2 hscalar.2 hap hn
    exact ⟨last, .table hg hl⟩

namespace Config

variable {config : Config} {id : String} {label : Option String} {tables : List Table} {last : Synthesis}

theorem pass_ok_iff_of_isEmpty (he : config.types.isEmpty) (ht : config.buildTables label = .ok tables) :
    config.pass id label = .ok last ↔ Run (config.start id) (tables.map .table) last := by
  simp only [pass_ok_iff, ht, Except.ok.injEq, exists_eq_left', Run.append_iff, Run.types_iff,
    Synthesis.gives_addTypes, AuxiliaryTypes.register_empty he]
  constructor
  · rintro ⟨mid, hm, _, rfl, rfl⟩
    exact hm
  · intro hl
    exact ⟨last, hl, _, rfl, rfl⟩

theorem exists_synthesize_iff (he : config.types.isEmpty) (ht : config.buildTables label = .ok tables) :
    (∃ output, synthesize id config label = .ok output) ↔
      ∃ last, Run (config.start id) (tables.map .table) last ∧ last.verify = .ok () ∧
        ∃ text, last.schema.render = .ok text := by
  simp only [synthesize_eq, Except.exists_bind_ok_iff, Synthesis.exists_finish_iff,
    pass_ok_iff_of_isEmpty he ht]

end Config

theorem Run.follows_tables {config : Config} {id : String} {tables : List Table} {last : Synthesis}
    (h : Run (config.start id) (tables.map .table) last) :
    last.Follows (tables.flatMap Planned.ofTable) := by
  have hf := h.follows Synthesis.follows_start
  rw [List.nil_append, List.flatMap_map] at hf
  exact hf

/-- Without auxiliary types, and with names of types that are free of conflicts, a pass goes through
exactly if no two tables plan operations of one name, no key is named like the input, and every type that is
named is a scalar or one of those registered. -/
theorem synthesize_succeeds_iff {config : Config} {id : String} {label : Option String}
    {tables : List Table} (he : config.types.isEmpty) (hb : config.BuiltAccepted)
    (ht : config.buildTables label = .ok tables)
    (hkeys : ((tables.flatMap Table.typeNames).map lookupKey).Nodup)
    (hscalar : ∀ name ∈ tables.flatMap Table.typeNames, Scalar.ofName? name = none)
    (hroots : ∀ name ∈ tables.flatMap Table.typeNames,
      lookupKey name ∉ ["query", "mutation", "subscription"]) :
    (∃ output, synthesize id config label = .ok output) ↔
      (tables.Pairwise fun a b => ∀ o ∈ a.plan, ∀ p ∈ b.plan, o.name ≠ p.name) ∧
        (∀ table ∈ tables, ∀ o ∈ table.plan, ∀ key ∈ o.keys, key.name ≠ "input") ∧
        ∀ table ∈ tables, ∀ name ∈ table.referencedTypes, (Scalar.ofName? name).isSome ∨
          lookupKey name ∈ (registeredNames tables).map lookupKey := by
  have hap := Apart.of_free hkeys hroots
  have ha := Config.buildTables_accepted hb ht
  have hstart : (config.start id).schema.Built [] (plannedFields []) := Schema.built_empty
  have hplanned : (∀ planned ∈ tables.flatMap Planned.ofTable, ∀ key ∈ planned.2.keys, key.name ≠ "input") ↔
      ∀ table ∈ tables, ∀ o ∈ table.plan, ∀ key ∈ o.keys, key.name ≠ "input" := by
    constructor
    · intro h table htable o ho
      exact h (table, o) (Planned.mem_tables_iff.2 ⟨htable, ho⟩)
    · intro h planned hp
      obtain ⟨htable, ho⟩ := Planned.mem_tables_iff.1 hp
      exact h _ htable _ ho
  rw [Config.exists_synthesize_iff he ht, ← fieldNames_nodup_iff, ← hplanned]
  constructor
  · rintro ⟨last, hrun, hv, hr⟩
    have hf := hrun.follows_tables
    have hbuilt : last.schema.Built tables (plannedFields tables) := hrun.built hstart ha hap
    refine ⟨hf.aligned.distinct, fun planned hp => hf.keys_ne_input hv hp, ?_⟩
    intro table htable name hn
    exact hbuilt.knows_iff.1 (hbuilt.exists_render_iff.1 hr table htable name hn)
  · rintro ⟨hdistinct, hinput, hknown⟩
    obtain ⟨last, hrun⟩ := exists_run hstart Synthesis.sound_start rfl ha
      (fun table htable n hn => hscalar n (List.mem_flatMap.2 ⟨table, htable, hn⟩)) hap hdistinct
    have hbuilt : last.schema.Built tables (plannedFields tables) := hrun.built hstart ha hap
    refine ⟨last, hrun, ?_, ?_⟩
    · refine hrun.follows_tables.verify_ok ?_ hinput
      intro root
      rw [hbuilt.rootFields, plannedFields, Planned.fieldsOf_map_rootField]
    · refine hbuilt.exists_render_iff.2 ?_
      intro table htable name hn
      exact hbuilt.knows_iff.2 (hknown table htable name hn)

theorem dogsAndCats_accepted : ∃ output, synthesize "Pets" dogsAndCats none = .ok output := by
  obtain ⟨tables, ht, ⟨hkeys, hscalar, hroots⟩, hconditions⟩ :=
    Except.exists_ok_of_decide (x := dogsAndCats.buildTables none)
      (p := fun tables => (((tables.flatMap Table.typeNames).map lookupKey).Nodup ∧
          (∀ name ∈ tables.flatMap Table.typeNames, Scalar.ofName? name = none) ∧
          ∀ name ∈ tables.flatMap Table.typeNames,
            lookupKey name ∉ ["query", "mutation", "subscription"]) ∧
        (tables.Pairwise fun a b => ∀ o ∈ a.plan, ∀ p ∈ b.plan, o.name ≠ p.name) ∧
        (∀ table ∈ tables, ∀ o ∈ table.plan, ∀ key ∈ o.keys, key.name ≠ "input") ∧
        ∀ table ∈ tables, ∀ name ∈ table.referencedTypes, (Scalar.ofName? name).isSome ∨
          lookupKey name ∈ (registeredNames tables).map lookupKey) (by decide +kernel)
  exact (synthesize_succeeds_iff rfl dogsAndCats_builtAccepted ht hkeys hscalar hroots).2 hconditions

end TableApi
