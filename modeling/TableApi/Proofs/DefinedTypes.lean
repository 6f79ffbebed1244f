import TableApi.Proofs.BuiltTypes

/-! Which tables have their types in the schema of a finished pass. -/
namespace TableApi

theorem Registry.Registers.mem_definitions {registry after : Registry} {types : List TypeDefinition}
    {d : TypeDefinition} (h : Registry.Registers registry types after) (hk : registry.Keyed)
    (hd : d ∈ registry.definitions) : d ∈ after.definitions := by
  rw [hk.mem_definitions_iff] at hd
  exact (h.keyed hk).mem_definitions_iff.2 (h.keeps hd)

namespace Schema

variable {s t : Schema} {tables : List Table} {table : Table} {added : List (RootType × FieldDefinition)}

/-- The object type of the table stands in the schema under the table's very name, with the attributes for
fields, and so does the input type, if there are attributes besides the primary key. -/
structure Defines (schema : Schema) (table : Table) : Prop where
  object : ∃ d ∈ schema.registry.definitions, d.name = table.baseName ∧
    ∃ fields, d.body = .object fields ∧ Declares table.attributes.entries fields
  input : (∃ entry ∈ table.attributes.entries, entry.1 ∉ table.primary.names) →
    ∃ d ∈ schema.registry.definitions, d.name = table.baseName ++ "Input" ∧
      ∃ fields, d.body = .input fields ∧
        Declares (table.attributes.entries.filter (·.1 ∉ table.primary.names)) fields

theorem Defines.mono (h : s.Defines table)
    (hsub : ∀ d ∈ s.registry.definitions, d ∈ t.registry.definitions) : t.Defines table where
  object := h.object.imp fun d hd => ⟨hsub d hd.1, hd.2⟩
  input hi := (h.input hi).imp fun d hd => ⟨hsub d hd.1, hd.2⟩

theorem Built.defines (h : s.Built tables added) (ht : table ∈ tables) : s.Defines table := by
  have ha := h.accepted table ht
  obtain ⟨types, htypes⟩ := ha.exists_types
  have hsub : ∀ d ∈ types, d ∈ s.registry.definitions := by
    intro d hd
    exact (h.definitions d).2 (.inl ⟨table, ht, types, htypes, hd⟩)
  have hentries : table.inputAttributes.entries =
      table.attributes.entries.filter (·.1 ∉ table.primary.names) := by
    simp [Table.inputAttributes, OrderedMap.filterNames]
  obtain ⟨fields, hf, ⟨hi, rfl⟩ | ⟨name, inputs, hi, hg, rfl⟩⟩ := (Table.types_ok_iff ha.legalName).1 htypes
  · refine ⟨⟨_, hsub _ List.mem_cons_self, rfl, fields, rfl, hf⟩, ?_⟩
    intro hex
    rw [Table.inputTypeName_eq_some_iff.2 ⟨hex, rfl⟩] at hi
    cases hi
  · refine ⟨⟨_, hsub _ List.mem_cons_self, rfl, fields, rfl, hf⟩, ?_⟩
    intro _
    have hname := (Table.inputTypeName_eq_some_iff.1 hi).2
    exact ⟨_, hsub ⟨name, [], .input inputs⟩ (by simp), hname, inputs, rfl, hentries ▸ hg⟩

/-- A name of a table's types that is defined tells by its category which of the two it is. -/
theorem Defines.exists_definition {name : String} (h : s.Defines table) (hn : name ∈ table.typeNames) :
    ∃ d ∈ s.registry.definitions, d.name = name ∧ (∀ field ∈ d.fields, field.arguments = []) ∧
      ((name = table.baseName ∧ d.category = .type) ∨
        (name = table.baseName ++ "Input" ∧ d.category = .input)) := by
  rcases List.mem_cons.1 hn with rfl | hn
  · obtain ⟨d, hd, hname, fields, hb, hf⟩ := h.object
    refine ⟨d, hd, hname, ?_, .inl ⟨rfl, by simp [TypeDefinition.category, hb, TypeBody.category]⟩⟩
    intro field hm
    rw [TypeDefinition.fields, hb] at hm
    exact hf.arguments_eq_nil hm
  · rw [Option.mem_toList, Table.inputTypeName_eq_some_iff] at hn
    obtain ⟨hex, rfl⟩ := hn
    obtain ⟨d, hd, hname, fields, hb, hf⟩ := h.input hex
    refine ⟨d, hd, hname, ?_, .inr ⟨rfl, by simp [TypeDefinition.category, hb, TypeBody.category]⟩⟩
    intro field hm
    rw [TypeDefinition.fields, hb] at hm
    exact hf.arguments_eq_nil hm

/-- Under each name of the table's types there is a definition of the category that belongs to the name. -/
def NamesTypes (schema : Schema) (table : Table) : Prop :=
  ∀ name ∈ table.typeNames, ∃ d ∈ schema.registry.definitions, d.name = name ∧
    ((name = table.baseName ∧ d.category = .type) ∨
      (name = table.baseName ++ "Input" ∧ d.category = .input))

theorem Defines.namesTypes (h : s.Defines table) : s.NamesTypes table := by
  intro name hn
  obtain ⟨d, hd, hname, _, hc⟩ := h.exists_definition hn
  exact ⟨d, hd, hname, hc⟩

end Schema

namespace Synthesis

variable {pass : Synthesis} {tables : List Table} {a b table : Table} {m n name : String} {root : RootType}

/-- Of names that are there each has a key of its own. -/
theorem Sound.same_of_key (h : pass.Sound) (ha : pass.schema.NamesTypes a) (hb : pass.schema.NamesTypes b)
    (hm : m ∈ a.typeNames) (hn : n ∈ b.typeNames) (hk : lookupKey m = lookupKey n) :
    m = n ∧ a.baseName = b.baseName := by
  obtain ⟨d, hdm, rfl, hdc⟩ := ha m hm
  obtain ⟨e, hem, rfl, hec⟩ := hb n hn
  obtain rfl := h.keyed.eq_of_key hdm hem hk
  refine ⟨rfl, ?_⟩
  rcases hdc with ⟨hda, hdc⟩ | ⟨hda, hdc⟩ <;> rcases hec with ⟨hea, hec⟩ | ⟨hea, hec⟩
  · exact hda.symm.trans hea
  · rw [hdc] at hec
    cases hec
  · rw [hdc] at hec
    cases hec
  · exact (String.append_left_inj "Input").1 (hda.symm.trans hea)

/-- A root in use has a field that asks for keys. -/
theorem Follows.exists_keyed_field (h : pass.Follows (tables.flatMap Planned.ofTable))
    (hv : pass.verify = .ok ()) (hr : root ∈ rootsOf tables) :
    ∃ field ∈ pass.schema.rootFields root, field.arguments ≠ [] := by
  obtain ⟨table, ht, operation, ho, rfl⟩ := mem_rootsOf_iff.1 hr
  obtain ⟨keyed, hkeyed, hroot, hkeys⟩ := Table.exists_keyed_in_plan ho
  refine ⟨keyed.toField table.baseName, ?_, ?_⟩
  · rw [h.rootFields hv]
    have hm : (table, keyed) ∈ tables.flatMap Planned.ofTable := Planned.mem_tables_iff.2 ⟨ht, hkeyed⟩
    exact List.mem_map.2 ⟨(table, keyed), List.mem_filter.2 ⟨hm, decide_eq_true hroot⟩, rfl⟩
  · intro hnil
    simp only [Operation.toField, List.append_eq_nil_iff, List.map_eq_nil_iff] at hnil
    exact hkeys hnil.1

/-- A table's type cannot be that of a root as well, for its fields take no arguments. -/
theorem Follows.key_ne_root (h : pass.Follows (tables.flatMap Planned.ofTable)) (hs : pass.Sound)
    (hv : pass.verify = .ok ()) (hd : pass.schema.Defines table) (hn : name ∈ table.typeNames)
    (hr : root ∈ rootsOf tables) : lookupKey name ≠ lookupKey root.typeName := by
  intro hk
  obtain ⟨field, hfield, hne⟩ := h.exists_keyed_field hv hr
  have hmem : root ∈ pass.schema.roots := by
    by_contra hno
    rw [Schema.rootFields_of_not_mem hno] at hfield
    cases hfield
  obtain ⟨d, hdm, rfl, hnil, _⟩ := hd.exists_definition hn
  have hget : pass.schema.registry.get? root.typeName = some d := by
    rw [← Registry.get?_congr hk, ← hs.keyed.mem_definitions_iff]
    exact hdm
  rw [Schema.rootFields_of_get? hmem hget] at hfield
  exact hne (hnil field hfield)

/-- Tables whose names are all there have keys of their own, but for those of roots. -/
theorem Sound.apart (h : pass.Sound) (htables : pass.tables = tables)
    (hn : ∀ table ∈ tables, pass.schema.NamesTypes table)
    (hr : ∀ table ∈ tables, ∀ name ∈ table.typeNames, ∀ root ∈ rootsOf tables,
      lookupKey name ≠ lookupKey root.typeName) : Apart tables := by
  refine ⟨?_, ?_, hr⟩
  · have hdistinct := h.distinct
    rw [h.tables, htables, List.Nodup, List.pairwise_map] at hdistinct
    refine hdistinct.imp_of_mem ?_
    intro a b ha hb hne m hm n hn' hk
    exact hne (h.same_of_key (hn a ha) (hn b hb) hm hn' hk).2
  · intro table ht
    refine List.Nodup.map_on ?_ table.typeNames_nodup
    intro m hm n hn' hk
    exact (h.same_of_key (hn table ht) (hn table ht) hm hn' hk).1

/-- Tables whose types are all there have names with keys of their own. -/
theorem Follows.apart_of_defines (h : pass.Follows (tables.flatMap Planned.ofTable)) (hs : pass.Sound)
    (htables : pass.tables = tables) (hv : pass.verify = .ok ())
    (hd : ∀ table ∈ tables, pass.schema.Defines table) : Apart tables := by
  refine hs.apart htables (fun table ht => (hd table ht).namesTypes) ?_
  intro table ht name hn root hr
  exact h.key_ne_root hs hv (hd table ht) hn hr

end Synthesis

/-- A pass that succeeds has all types of all tables exactly where the names of the types it registers for
them have keys of their own. -/
theorem synthesize_defines_iff {config : Config} {id : String} {label : Option String}
    {tables : List Table} {output : Output} (hb : config.BuiltAccepted)
    (ht : config.buildTables label = .ok tables) (h : synthesize id config label = .ok output) :
    ∃ last, config.pass id label = .ok last ∧ last.finish = .ok output ∧
      ((∀ table ∈ tables, last.schema.Defines table) ↔
        ((registeredNames tables).map lookupKey).Nodup) := by
  obtain ⟨last, hp, hf⟩ := Config.synthesize_ok_iff.1 h
  refine ⟨last, hp, hf, ?_⟩
  obtain ⟨built, hbuilt, hrun⟩ := Config.pass_ok_iff.1 hp
  obtain rfl : built = tables := Except.ok.inj (hbuilt.symm.trans ht)
  have hv := (Synthesis.finish_ok_iff.1 hf).1
  obtain ⟨mid, hmid, htypes⟩ := Run.append_iff.1 hrun
  obtain ⟨t, hreg, rfl⟩ := Synthesis.gives_addTypes.1 (Run.types_iff.1 htypes)
  obtain ⟨types, r, hr, rfl⟩ := AuxiliaryTypes.register_registers hreg
  rw [← apart_iff]
  constructor
  · intro hd
    have hfollows := hrun.follows Synthesis.follows_start
    have hall : (built.map Call.table ++ [Call.types config.types]).flatMap Call.planned =
        built.flatMap Planned.ofTable := by
      simp [List.flatMap_map, Call.planned]
    rw [List.nil_append, hall] at hfollows
    refine hfollows.apart_of_defines (hrun.sound Synthesis.sound_start) ?_ hv hd
    exact hmid.tables_eq
  · intro hap table htable
    have hstart : (config.start id).schema.Built [] (plannedFields []) := Schema.built_empty
    have hmidBuilt := hmid.built hstart (Config.buildTables_accepted hb ht) hap
    exact (hmidBuilt.defines htable).mono fun d hd => hr.mem_definitions hmidBuilt.keyed hd

theorem dogsAndCats_defined : ∃ tables output last,
    dogsAndCats.buildTables none = .ok tables ∧ synthesize "Pets" dogsAndCats none = .ok output ∧
      dogsAndCats.pass "Pets" none = .ok last ∧ tables.map Table.baseName = ["Dog", "Cat"] ∧
      ∀ table ∈ tables, last.schema.Defines table := by
  obtain ⟨tables, ht, hnames, hkeys⟩ := Except.exists_ok_of_decide (x := dogsAndCats.buildTables none)
    (p := fun tables => tables.map Table.baseName = ["Dog", "Cat"] ∧
      ((registeredNames tables).map lookupKey).Nodup) (by decide +kernel)
  obtain ⟨output, ho, _⟩ := Except.exists_ok_of_decide (x := synthesize "Pets" dogsAndCats none)
    (p := fun _ => True) (by decide +kernel)
  obtain ⟨last, hlast, _, hdefines⟩ := synthesize_defines_iff dogsAndCats_builtAccepted ht ho
  exact ⟨tables, output, last, ht, ho, hlast, hnames, hdefines.2 hkeys⟩

/-- Two tables whose names differ in case. -/
def dogAndSmallDog : Config :=
  { Config.empty with
    tables := [declared "Dog" "dogId" [("dogId", "ID!"), ("breed", "String")],
      declared "dog" "id" [("id", "ID!"), ("age", "Int")]] }

/-- The pass over both succeeds and gives the schema no type `dog`. -/
theorem smallDog_not_defined : ∃ tables output last,
    dogAndSmallDog.buildTables none = .ok tables ∧ synthesize "Pets" dogAndSmallDog none = .ok output ∧
      dogAndSmallDog.pass "Pets" none = .ok last ∧ last.finish = .ok output ∧
      ∃ table ∈ tables, table.baseName = "dog" ∧ ¬ last.schema.Defines table := by
  obtain ⟨tables, ht, hnames⟩ := Except.exists_ok_of_decide (x := dogAndSmallDog.buildTables none)
    (p := fun tables => "dog" ∈ tables.map Table.baseName) (by decide +kernel)
  obtain ⟨last, hp, hdefined, hfinish⟩ := Except.exists_ok_of_decide (x := dogAndSmallDog.pass "Pets" none)
    (p := fun last => "dog" ∉ last.schema.registry.definitions.map TypeDefinition.name ∧
      last.finish.toOption.any fun _ => decide True) (by decide +kernel)
  obtain ⟨output, hf, _⟩ := Except.exists_ok_of_decide hfinish
  obtain ⟨table, htable, hname⟩ := List.mem_map.1 hnames
  have ho := Config.synthesize_ok_iff.2 ⟨last, hp, hf⟩
  refine ⟨tables, output, last, ht, ho, hp, hf, table, htable, hname, ?_⟩
  intro hd
  obtain ⟨d, hm, hdname, _⟩ := hd.object
  exact hdefined (List.mem_map.2 ⟨d, hm, hdname.trans hname⟩)

end TableApi
