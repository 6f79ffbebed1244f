import TableApi.Proofs.Acceptance
import TableApi.Proofs.AlikeTypes
import TableApi.Proofs.ClosedSchema
import TableApi.Proofs.DefinedTypes
import TableApi.Proofs.RegisteredTypes

/-! What the order of the tables decides. Where the names of types have keys of their own it decides nothing but
the order of what is given. Of names under one key the first is kept. -/
namespace TableApi

namespace Config

variable {config : Config} {id : String} {label : Option String} {entries : List TableEntry}
  {tables : List Table} {output : Output} {types : List TypeDefinition} {last : Synthesis}

/-- The configuration with its tables in the order of the entries. -/
def arranged (config : Config) (entries : List TableEntry) : Config :=
  { config with tables := entries }

theorem arranged_tables : (config.arranged entries).tables = entries := rfl

/-- The names of the types that come with the tables have keys of their own. -/
def KeysApart (config : Config) (label : Option String) : Prop :=
  ∀ tables, config.buildTables label = .ok tables → ((registeredNames tables).map lookupKey).Nodup

/-- The pass gives the output, and the types are those that the schema of the output is written from. -/
def Yields (config : Config) (id : String) (label : Option String) (output : Output)
    (types : List TypeDefinition) : Prop :=
  ∃ last, config.pass id label = .ok last ∧ last.finish = .ok output ∧
    last.schema.registry.written = .ok types ∧
    output.schema = Schema.ofLines
      (Schema.rootLines last.schema.roots ++ types.flatMap TypeDefinition.lines)

theorem yields_iff (hb : config.BuiltAccepted) : config.Yields id label output types ↔
    ∃ last, config.pass id label = .ok last ∧ last.finish = .ok output ∧
      last.schema.registry.written = .ok types := by
  refine exists_congr fun last => and_congr_right fun hp => and_congr_right fun hf => and_iff_left_of_imp ?_
  intro ht
  obtain ⟨same, hsame, htext⟩ := written_of_pass hb hp hf
  obtain rfl : same = types := Except.ok.inj (hsame.symm.trans ht)
  exact htext

theorem Yields.synthesize_ok (h : config.Yields id label output types) :
    synthesize id config label = .ok output := by
  obtain ⟨last, hp, hf, _⟩ := h
  exact synthesize_ok_iff.2 ⟨last, hp, hf⟩

theorem exists_yields (hb : config.BuiltAccepted) (h : synthesize id config label = .ok output) :
    ∃ types, config.Yields id label output types := by
  obtain ⟨last, hp, hf⟩ := synthesize_ok_iff.1 h
  obtain ⟨types, hwritten⟩ := written_of_pass hb hp hf
  exact ⟨types, last, hp, hf, hwritten⟩

theorem BuiltAccepted.arranged (hb : config.BuiltAccepted) (hp : entries.Perm config.tables) :
    (config.arranged entries).BuiltAccepted :=
  fun table hm => hb table (hp.mem_iff.1 hm)

theorem buildTable_arranged : (config.arranged entries).buildTable label = config.buildTable label := by
  funext entry
  cases entry <;> rfl

theorem buildTables_arranged (h : config.buildTables label = .ok tables) (hp : entries.Perm config.tables) :
    ∃ others, (config.arranged entries).buildTables label = .ok others ∧ others.Perm tables := by
  obtain ⟨hne, hbuild⟩ := buildTables_ok_iff.1 h
  obtain ⟨others, hothers, hperm⟩ := Except.mapM_perm hbuild hp
  refine ⟨others, buildTables_ok_iff.2 ⟨?_, buildTable_arranged ▸ hothers⟩, hperm⟩
  rintro rfl
  exact hne hp.nil_eq.symm

theorem KeysApart.arranged (hk : config.KeysApart label) (hp : entries.Perm config.tables) :
    (config.arranged entries).KeysApart label := by
  intro others ho
  obtain ⟨tables, ht, hperm⟩ := buildTables_arranged ho hp.symm
  exact ((registeredNames_perm hperm).map lookupKey).nodup_iff.1 (hk tables ht)

end Config

section Transport

variable {config : Config} {id : String} {tables others : List Table} {last : Synthesis}

/-- The types of tables that were added have no names of scalars. -/
theorem Run.typeNames_not_scalar (h : Run (config.start id) (tables.map .table) last)
    (hbuilt : last.schema.Built tables (plannedFields tables)) (ha : ∀ table ∈ tables, table.Accepted) :
    ∀ table ∈ tables, ∀ name ∈ table.typeNames, Scalar.ofName? name = none := by
  have hstart : (config.start id).schema.Rooted (([] : List Planned).map Planned.rootField) :=
    Schema.rooted_empty
  have hrooted := h.rooted hstart Schema.fielded_empty ha
  intro table ht name hn
  obtain ⟨types, htypes⟩ := (ha table ht).exists_types
  rw [← Table.types_names (ha table ht).legalName htypes] at hn
  obtain ⟨d, hd, rfl⟩ := List.mem_map.1 hn
  exact hrooted.scalars d ((hbuilt.definitions d).2 (.inl ⟨table, ht, types, htypes, hd⟩))

/-- Tables that are added in one order are added in any other, to alike types. -/
theorem Run.transport (h : Run (config.start id) (tables.map .table) last)
    (ha : ∀ table ∈ tables, table.Accepted) (hap : Apart tables) (hp : others.Perm tables) :
    ∃ other, Run (config.start id) (others.map .table) other ∧
      other.schema.Built others (plannedFields others) ∧
      last.schema.registry.Alike other.schema.registry := by
  have hstart : (config.start id).schema.Built [] (plannedFields []) := Schema.built_empty
  have hbuilt : last.schema.Built tables (plannedFields tables) := h.built hstart ha hap
  have ha' : ∀ table ∈ others, table.Accepted := fun table ht => ha table (hp.mem_iff.1 ht)
  have hap' : Apart others :=
    apart_iff.2 (((registeredNames_perm hp).map lookupKey).nodup_iff.2 (apart_iff.1 hap))
  have hdistinct : (fieldNames (plannedFields others)).Nodup :=
    ((plannedFields_perm hp).map _).nodup_iff.2 h.follows_tables.aligned.distinct
  obtain ⟨other, hother⟩ := exists_run hstart Synthesis.sound_start rfl ha'
    (fun table ht => h.typeNames_not_scalar hbuilt ha table (hp.mem_iff.1 ht)) hap' hdistinct
  have hbuilt' : other.schema.Built others (plannedFields others) := hother.built hstart ha' hap'
  exact ⟨other, hother, hbuilt', hbuilt.alike hbuilt' hp.symm⟩

/-- Types that are registered later leave the fields of roots alone. -/
theorem Schema.Built.rootFields_registers {s : Schema} {done : List Table}
    {added : List (RootType × FieldDefinition)} {types : List TypeDefinition} {r : Registry}
    (h : s.Built done added) (hr : Registry.Registers s.registry types r) (root : RootType) :
    Schema.rootFields { s with registry := r } root = fieldsOf root added := by
  rw [← h.rootFields root]
  refine Schema.rootFields_congr Iff.rfl fun hroot => ?_
  exact (hr.keeps (h.get?_root hroot)).trans (h.get?_root hroot).symm

/-- Types that are declared beside the tables are taken up after them as before. -/
theorem Run.transport_types {declared : AuxiliaryTypes}
    (h : Run (config.start id) (tables.map .table ++ [.types declared]) last)
    (ha : ∀ table ∈ tables, table.Accepted) (hap : Apart tables) (hp : others.Perm tables) :
    ∃ other, Run (config.start id) (others.map .table ++ [.types declared]) other ∧
      (∀ root, other.schema.rootFields root = fieldsOf root (plannedFields others)) ∧
      last.schema.registry.Alike other.schema.registry := by
  obtain ⟨mid, types, r, hmid, hdefinitions, hr, rfl⟩ := Run.types_last_iff.1 h
  obtain ⟨other, hother, hbuilt, halike⟩ := hmid.transport ha hap hp
  obtain ⟨r', hr', halike'⟩ := halike.registers hr
  exact ⟨_, Run.types_last_iff.2 ⟨other, types, r', hother, hdefinitions, hr', rfl⟩,
    hbuilt.rootFields_registers hr', halike'⟩

namespace Config

variable {label : Option String} {entries : List TableEntry} {output : Output} {types : List TypeDefinition}

/-- What a pass yields it yields with its tables in any other order, up to the order. -/
theorem Yields.transport (h : config.Yields id label output types) (hb : config.BuiltAccepted)
    (hk : config.KeysApart label) (hp : entries.Perm config.tables) :
    ∃ other others, (config.arranged entries).Yields id label other others ∧ SameTypes types others ∧
      output.bindings.Perm other.bindings ∧ output.tables.Perm other.tables := by
  obtain ⟨last, hpass, hfinish, ht⟩ := (yields_iff hb).1 h
  obtain ⟨tables, htables, hrun⟩ := pass_ok_iff.1 hpass
  obtain ⟨arrangement, harranged, hperm⟩ := buildTables_arranged htables hp
  obtain ⟨other, hrun', hfields, halike⟩ := hrun.transport_types (buildTables_accepted hb htables)
    (apart_iff.2 (hk tables htables)) hperm
  have hplanned : (arrangement.flatMap Planned.ofTable).Perm (tables.flatMap Planned.ofTable) :=
    hperm.flatMap_right _
  have hfollows := follows_of_run hrun
  have hfollows' := follows_of_run hrun'
  obtain ⟨hv, _, hbindings, hdescriptors, _⟩ := Synthesis.finish_ok_iff.1 hfinish
  obtain ⟨others, hothers, hsame⟩ := halike.written (hrun.sound Synthesis.sound_start).keyed
    (hrun'.sound Synthesis.sound_start).keyed ht
  have hverify : other.verify = .ok () := by
    refine hfollows'.verify_ok ?_ fun planned hm => hfollows.keys_ne_input hv (hplanned.mem_iff.1 hm)
    intro root
    rw [hfields, plannedFields, Planned.fieldsOf_map_rootField]
  obtain ⟨result, hresult⟩ := Synthesis.exists_finish_iff.2
    ⟨hverify, _, Schema.render_ok_iff.2 ⟨others, hothers, rfl⟩⟩
  obtain ⟨_, _, hbindings', hdescriptors', _⟩ := Synthesis.finish_ok_iff.1 hresult
  have hpass' : (config.arranged entries).pass id label = .ok other :=
    pass_ok_iff.2 ⟨arrangement, harranged, hrun'⟩
  refine ⟨result, others, (yields_iff (hb.arranged hp)).2 ⟨other, hpass', hresult, hothers⟩, hsame, ?_, ?_⟩
  · rw [hbindings, hbindings', hfollows.bindings, hfollows'.bindings]
    exact hplanned.symm.map _
  · rw [hdescriptors, hdescriptors', tables_of_run hrun, tables_of_run hrun']
    exact hperm.symm.map _

end Config

end Transport

/-- One of the configurations is accepted exactly if the other is, and then both give the same types, bindings
and tables. -/
structure SameOutcome (id : String) (label : Option String) (a b : Config) : Prop where
  succeeds : (∃ output, synthesize id a label = .ok output) ↔ ∃ output, synthesize id b label = .ok output
  agrees : ∀ output other, synthesize id a label = .ok output → synthesize id b label = .ok other →
    ∃ types others, a.Yields id label output types ∧ b.Yields id label other others ∧
      SameTypes types others ∧ output.bindings.Perm other.bindings ∧ output.tables.Perm other.tables

theorem Config.KeysApart.sameOutcome {config : Config} {id : String} {label : Option String}
    {entries : List TableEntry} (hk : config.KeysApart label) (hb : config.BuiltAccepted)
    (hp : entries.Perm config.tables) : SameOutcome id label config (config.arranged entries) := by
  refine ⟨⟨?_, ?_⟩, ?_⟩
  · rintro ⟨output, h⟩
    obtain ⟨types, hyields⟩ := exists_yields hb h
    obtain ⟨other, others, hother, _⟩ := hyields.transport hb hk hp
    exact ⟨other, hother.synthesize_ok⟩
  · rintro ⟨other, h⟩
    obtain ⟨others, hyields⟩ := exists_yields (hb.arranged hp) h
    obtain ⟨output, types, houtput, _⟩ := hyields.transport (hb.arranged hp) (hk.arranged hp) hp.symm
    exact ⟨output, houtput.synthesize_ok⟩
  · intro output other h ho
    obtain ⟨types, hyields⟩ := exists_yields hb h
    obtain ⟨result, others, hresult, hsame, hbindings, htables⟩ := hyields.transport hb hk hp
    obtain rfl : result = other := Except.ok.inj (hresult.synthesize_ok.symm.trans ho)
    exact ⟨types, others, hyields, hresult, hsame, hbindings, htables⟩

section First

variable {registry other : Registry} {e : TypeDefinition} {added : List (RootType × FieldDefinition)}
  {types others : List TypeDefinition}

/-- Of the types of a table that comes first none is left out. -/
theorem Schema.Filled.namesTypes {s : Schema} {table : Table} {later : List TypeDefinition}
    (h : s.Filled (types ++ later) added) (ha : table.Accepted) (ht : table.types = .ok types) :
    s.NamesTypes table := by
  have hfirst : ∀ d : TypeDefinition, (types ++ later).find? (lookupKey ·.name = lookupKey d.name) = some d →
      ∃ e ∈ s.registry.definitions, e.name = d.name ∧ e.category = d.category := by
    intro d hd
    have hget : s.registry.get? d.name = some (d.grown added) := by
      rw [h.registry.get?_eq, hd, Option.map_some]
    exact ⟨_, h.registry.keyed.get?_mem hget, TypeDefinition.grown_name, TypeDefinition.grown_category⟩
  obtain ⟨fields, _, htypes⟩ := (Table.types_ok_iff ha.legalName).1 ht
  intro name hn
  rw [← Table.types_names ha.legalName ht] at hn
  obtain ⟨d, hd, rfl⟩ := List.mem_map.1 hn
  rcases htypes with ⟨_, rfl⟩ | ⟨input, inputs, hi, _, rfl⟩
  · obtain rfl := List.mem_singleton.1 hd
    obtain ⟨e, he, hname, hc⟩ := hfirst _ (List.find?_cons_of_pos (by simp))
    exact ⟨e, he, hname, .inl ⟨rfl, hc⟩⟩
  · have hinput := (Table.inputTypeName_eq_some_iff.1 hi).2
    rcases List.mem_pair.1 hd with rfl | rfl
    · obtain ⟨e, he, hname, hc⟩ := hfirst _ (List.find?_cons_of_pos (by simp))
      exact ⟨e, he, hname, .inl ⟨rfl, hc⟩⟩
    · -- the object type before it is of another category, so it has another key
      have hne := h.registry.key_ne (d := ⟨table.baseName, [], .object fields⟩) (e := ⟨input, [], .input inputs⟩)
        (by simp) (by simp) (by simp [TypeDefinition.category, TypeBody.category])
      obtain ⟨e, he, hname, hc⟩ := hfirst ⟨input, [], .input inputs⟩ (by simp [hne])
      exact ⟨e, he, hname, .inr ⟨hinput, hc⟩⟩

/-- What is written of one registry is there in the other. -/
theorem SameTypes.exists_definition (h : SameTypes types others) (hk : registry.Keyed) (hko : other.Keyed)
    (ht : registry.written = .ok types) (hto : other.written = .ok others) (he : e ∈ other.definitions) :
    ∃ d ∈ registry.definitions, d.name = e.name ∧ d.category = e.category := by
  obtain ⟨writtenOther, hmo, hwo⟩ := forall₂_exists_right (Except.mapM_ok_iff.1 hto) he
  obtain ⟨written, hm, halike⟩ := h.2 writtenOther hmo
  obtain ⟨d, hd, hw⟩ := Except.exists_of_mapM_ok ht hm
  obtain ⟨hname, hcategory, _⟩ := TypeDefinition.writes_of_resolved hk hw
  obtain ⟨hnameOther, hcategoryOther, _⟩ := TypeDefinition.writes_of_resolved hko hwo
  exact ⟨d, hd, hname.symm.trans (halike.name.trans hnameOther),
    hcategory.symm.trans (halike.category.trans hcategoryOther)⟩

theorem SameTypes.namesTypes {s t : Schema} {table : Table} (h : SameTypes types others)
    (hk : s.registry.Keyed) (hko : t.registry.Keyed) (ht : s.registry.written = .ok types)
    (hto : t.registry.written = .ok others) (hn : t.NamesTypes table) : s.NamesTypes table := by
  intro name hname
  obtain ⟨e, he, rfl, hc⟩ := hn name hname
  obtain ⟨d, hd, hdname, hdc⟩ := h.exists_definition hk hko ht hto he
  exact ⟨d, hd, hdname, hdc ▸ hc⟩

end First

namespace Config

variable {config : Config} {id : String} {label : Option String} {entries : List TableEntry}
  {output : Output} {last : Synthesis}

/-- The table that comes first has its types under their own names, and none under the name of a root. -/
theorem first_table {table : Table} {later : List Table} (hb : config.BuiltAccepted)
    (hp : config.pass id label = .ok last) (hf : last.finish = .ok output)
    (ht : config.buildTables label = .ok (table :: later)) :
    last.schema.NamesTypes table ∧ ∀ name ∈ table.typeNames, ∀ root ∈ rootsOf (table :: later),
      lookupKey name ≠ lookupKey root.typeName := by
  have ha := buildTables_accepted hb ht table List.mem_cons_self
  obtain ⟨tables, htables, hrun⟩ := pass_ok_iff.1 hp
  obtain rfl : tables = table :: later := Except.ok.inj (htables.symm.trans ht)
  obtain ⟨definitions, hdefinitions, hfilled⟩ := hrun.filled_start
  simp only [List.map_cons, List.cons_append, List.mapM_cons, Call.definitions, Except.bind_ok_iff,
    Except.pure_ok_iff] at hdefinitions
  obtain ⟨_, ⟨types, htypes, rfl⟩, rest, _, rfl⟩ := hdefinitions
  rw [List.flatten_cons, List.append_assoc, planned_of_calls] at hfilled
  have hnames := hfilled.namesTypes ha htypes
  refine ⟨hnames, ?_⟩
  intro name hn root hroot hk
  -- the type that the root has in the end goes by the root's own name, which no table has
  obtain ⟨all, hfollows, hrooted⟩ := pass_rooted hb hp
  have hused : root ∈ last.schema.roots := (hfilled.roots root).2 (mem_rootsOf_iff_planned.1 hroot)
  obtain ⟨d, hd, hname, hc⟩ := root_named hfollows hrooted (Synthesis.finish_ok_iff.1 hf).1 root hused
  obtain ⟨e, he, rfl, hown⟩ := hnames name hn
  obtain rfl := hrooted.keyed.eq_of_key he hd (hk.trans (congrArg lookupKey hname).symm)
  rcases hown with ⟨hbase, _⟩ | ⟨_, hinput⟩
  · exact ha.name_ne_root root (hbase.symm.trans hname)
  · rw [hc] at hinput
    cases hinput

theorem buildTables_first {entry : TableEntry} {table : Table} {tables : List Table}
    (h : (config.arranged (entry :: entries)).buildTables label = .ok tables)
    (ht : config.buildTable label entry = .ok table) : ∃ later, tables = table :: later := by
  have hbuild := (buildTables_ok_iff.1 h).2
  rw [buildTable_arranged, arranged_tables] at hbuild
  simp only [List.mapM_cons, ht, Except.bind_ok_iff, Except.pure_ok_iff, Except.ok.injEq,
    exists_eq_left'] at hbuild
  obtain ⟨later, _, rfl⟩ := hbuild
  exact ⟨later, rfl⟩

/-- Each table in turn can come first, and the outcome is the same. -/
theorem keysApart_of_sameOutcome (hb : config.BuiltAccepted) (h : synthesize id config label = .ok output)
    (hall : ∀ entries, entries.Perm config.tables → SameOutcome id label config (config.arranged entries)) :
    config.KeysApart label := by
  intro tables ht
  obtain ⟨last, hp, _⟩ := synthesize_ok_iff.1 h
  obtain ⟨built, hbuilt, hrun⟩ := pass_ok_iff.1 hp
  obtain rfl : built = tables := Except.ok.inj (hbuilt.symm.trans ht)
  have hsound := hrun.sound Synthesis.sound_start
  have hfirst : ∀ table ∈ built, last.schema.NamesTypes table ∧ ∀ name ∈ table.typeNames,
      ∀ root ∈ rootsOf built, lookupKey name ≠ lookupKey root.typeName := by
    intro table htable
    obtain ⟨entry, he, hbuild⟩ := exists_entry ht htable
    have hperm : (entry :: config.tables.erase entry).Perm config.tables := (List.perm_cons_erase he).symm
    obtain ⟨arrangement, harranged, hpermTables⟩ := buildTables_arranged ht hperm
    obtain ⟨later, rfl⟩ := buildTables_first harranged hbuild
    obtain ⟨other, ho⟩ := (hall _ hperm).succeeds.1 ⟨output, h⟩
    obtain ⟨types, others, ⟨same, hsame, _, htypes, _⟩, ⟨first, hpfirst, hffirst, hothers, _⟩, hagree, _⟩ :=
      (hall _ hperm).agrees output other h ho
    obtain rfl : same = last := Except.ok.inj (hsame.symm.trans hp)
    obtain ⟨_, _, hrooted⟩ := pass_rooted (hb.arranged hperm) hpfirst
    obtain ⟨hnames, hroots⟩ := first_table (hb.arranged hperm) hpfirst hffirst harranged
    refine ⟨hagree.namesTypes hsound.keyed hrooted.keyed htypes hothers hnames, ?_⟩
    rw [rootsOf_perm hpermTables] at hroots
    exact hroots
  exact apart_iff.1 (hsound.apart (tables_of_run hrun) (fun table ht => (hfirst table ht).1)
    fun table ht => (hfirst table ht).2)

end Config

/-- The order of the tables decides nothing about the outcome exactly if the names of the types that come with
them have keys of their own, or if they are accepted in no order. -/
theorem synthesize_order_iff {config : Config} {id : String} {label : Option String}
    (hb : config.BuiltAccepted) :
    (∀ entries, entries.Perm config.tables → SameOutcome id label config (config.arranged entries)) ↔
      config.KeysApart label ∨ ∀ entries, entries.Perm config.tables →
        ∀ output, synthesize id (config.arranged entries) label ≠ .ok output := by
  constructor
  · intro hall
    by_cases h : ∃ output, synthesize id config label = .ok output
    · obtain ⟨output, h⟩ := h
      exact .inl (Config.keysApart_of_sameOutcome hb h hall)
    · right
      intro entries hp output ho
      exact h ((hall entries hp).succeeds.2 ⟨output, ho⟩)
  · rintro (hk | hnone) entries hp
    · exact hk.sameOutcome hb hp
    · have hown : ∀ output, synthesize id config label ≠ .ok output := hnone config.tables (.refl _)
      refine ⟨⟨?_, ?_⟩, ?_⟩
      · rintro ⟨output, h⟩
        exact absurd h (hown output)
      · rintro ⟨output, h⟩
        exact absurd h (hnone entries hp output)
      · intro output _ h
        exact absurd h (hown output)

theorem dogsAndCats_in_any_order :
    (∃ output, synthesize "Pets" dogsAndCats none = .ok output) ∧
      SameOutcome "Pets" none dogsAndCats (dogsAndCats.arranged dogsAndCats.tables.reverse) := by
  obtain ⟨output, ho, _⟩ := Except.exists_ok_of_decide (x := synthesize "Pets" dogsAndCats none)
    (p := fun _ => True) (by decide +kernel)
  obtain ⟨tables, ht, hkeys⟩ := Except.exists_ok_of_decide (x := dogsAndCats.buildTables none)
    (p := fun tables => ((registeredNames tables).map lookupKey).Nodup) (by decide +kernel)
  refine ⟨⟨output, ho⟩, (synthesize_order_iff dogsAndCats_builtAccepted).2 (.inl ?_) _ (List.reverse_perm _)⟩
  intro built hbuilt
  obtain rfl : tables = built := Except.ok.inj (ht.symm.trans hbuilt)
  exact hkeys

/-- Dogs, and questions in a table that is named like a root but for the capital letter. -/
def dogsAndQueries : Config :=
  { Config.empty with
    tables := [declared "Dog" "dogId" [("dogId", "ID!"), ("breed", "String")],
      declared "query" "id" [("id", "ID!"), ("text", "String")]] }

/-- The pass over both is refused once the questions come first. -/
theorem dogsAndQueries_in_one_order :
    (∃ output, synthesize "Pets" dogsAndQueries none = .ok output) ∧
      dogsAndQueries.tables.reverse.Perm dogsAndQueries.tables ∧
      synthesize "Pets" (dogsAndQueries.arranged dogsAndQueries.tables.reverse) none =
        .error (.fieldWithoutBinding .query "id") := by
  obtain ⟨output, ho, _⟩ := Except.exists_ok_of_decide (x := synthesize "Pets" dogsAndQueries none)
    (p := fun _ => True) (by decide +kernel)
  exact ⟨⟨output, ho⟩, List.reverse_perm _, by decide +kernel⟩

end TableApi
