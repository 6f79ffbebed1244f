import TableApi.Proofs.LegalNames
import TableApi.Proofs.PointKeys

/-! When operations ask for no key twice. Arguments have the names of keys, and so have the attributes that a
request gives values to; both repeat a name in the operations that repeat a key. -/
namespace TableApi

/-- The attributes that a request gives values to. -/
def KeyShape.names (shape : KeyShape) : List String :=
  shape.assignments.map KeyAssignment.name

theorem Operation.argumentNames_nodup_iff {o : Operation} {base : String}
    (h : ∀ key ∈ o.keys, key.name ≠ "input") : (o.toField base).argumentNames.Nodup ↔ o.keyNames.Nodup := by
  have hinput : ∀ name ∈ o.keyNames, name ≠ "input" := by
    intro name hname
    obtain ⟨key, hk, rfl⟩ := List.mem_map.1 hname
    exact h key hk
  rw [argumentNames_toField]
  cases o.input with
  | none => simp
  | some name => simpa [List.nodup_append] using fun _ => hinput

namespace Table

variable {table : Table} {o : Operation}

/-- No operation of the plan asks for a key twice: the keys of the table are different if it has operations at
all, and so are those of an index where a query asks for them. -/
def AsksOnce (table : Table) : Prop :=
  (table.plan ≠ [] → table.primary.names.Nodup) ∧
    ∀ keys ∈ table.indexKeys, table.Reaches keys → keys.Nodup

instance (table : Table) (keys : List String) : Decidable (table.Reaches keys) := by
  unfold Reaches
  infer_instance

instance (table : Table) : Decidable table.AsksOnce := by
  unfold AsksOnce
  infer_instance

/-- Beside the queries all keys that operations ask for are those of the table. -/
theorem keyNames_of_root (h : Candidate table o) (hr : o.root ≠ .query) (hk : o.keys ≠ []) :
    o.keyNames = table.primary.names := by
  cases h with
  | put | delete | change => exact table.names_primaryArguments
  | create => exact absurd rfl hk
  | _ => exact absurd rfl hr

/-- The look-up of an item comes before all other queries of its verb. -/
theorem askedUnder_get (table : Table) :
    ∃ others, table.askedUnder "get" = table.primary.names :: others := by
  have hscan : (if table.flags.scan then [table.scanOperation] else []).filter (·.verb = "get") = [] := by
    cases table.flags.scan <;> simp
  simp only [askedUnder, queryCandidates, List.append_assoc, List.filter_append, hscan, List.nil_append,
    List.filter_cons, verb_get, decide_true, if_true, List.cons_append, List.map_cons]
  exact ⟨_, congrArg (· :: _) table.names_primaryArguments⟩

theorem exists_primary_in_plan (h : table.plan ≠ []) : ∃ o ∈ table.plan, o.keyNames = table.primary.names := by
  obtain ⟨o, ho⟩ := List.exists_mem_of_ne_nil _ h
  obtain ⟨p, hp, _, hkeys⟩ := exists_keyed_in_plan ho
  have hc := candidate_of_mem_plan hp
  by_cases hr : p.root = .query
  · have hq := (mem_queryCandidates_of_root hc hr).1
    have hfirst : FirstSpelt (table.askedUnder "get") table.primary.names := by
      obtain ⟨others, hasked⟩ := table.askedUnder_get
      simp [FirstSpelt, hasked]
    have hne : table.primary.names ≠ [] := List.cons_ne_nil _ _
    obtain ⟨q, hqm, _, hnames⟩ := (reaches_iff hq hne).2 ⟨"get", by decide, hfirst⟩
    exact ⟨q, hqm, hnames⟩
  · exact ⟨p, hp, keyNames_of_root hc hr hkeys⟩

theorem keyNames_nodup_iff : (∀ o ∈ table.plan, o.keyNames.Nodup) ↔ table.AsksOnce := by
  constructor
  · intro hall
    refine ⟨fun hne => ?_, fun keys _ hreached => ?_⟩
    · obtain ⟨o, ho, hnames⟩ := exists_primary_in_plan hne
      exact hnames ▸ hall o ho
    · obtain ⟨o, ho, _, hnames⟩ := hreached
      exact hnames ▸ hall o ho
  · intro honce o ho
    have hprimary : (table.primaryArguments.map KeyArgument.name).Nodup := by
      rw [table.names_primaryArguments]
      exact honce.1 (List.ne_nil_of_mem ho)
    cases candidate_of_mem_plan ho with
    | scan | create => exact .nil
    | get | put | delete | change => exact hprimary
    | list | globalPartition => exact List.nodup_singleton _
    | globalSort hq hi hs =>
      refine honce.2 _ (List.mem_append_left _ (List.mem_flatMap.2 ⟨_, hi, ?_⟩)) ⟨_, ho, rfl, rfl⟩
      rw [hs]
      exact List.mem_cons_of_mem _ (List.mem_singleton_self _)
    | localSort hq hg hi =>
      refine honce.2 _ (List.mem_append_right _ ?_) ⟨_, ho, rfl, rfl⟩
      rw [if_neg (by simpa using hg)]
      exact List.mem_map_of_mem hi

end Table

/-- A request gives values to the keys that its operation asks for, and to a generated key alone if it asks for
none. -/
theorem Candidate.shape_nodup_iff {table : Table} {o : Operation} (h : Candidate table o) :
    (table.bindingOf o).shape.names.Nodup ↔ o.keyNames.Nodup := by
  have hprimary : (KeyShape.ofArguments table.primaryArguments).names.Nodup ↔
      (table.primaryArguments.map KeyArgument.name).Nodup := by
    rw [table.names_primaryArguments, KeyShape.names, table.complete_primaryArguments]
  cases h with
  | get | put | delete | change => exact hprimary
  | create => exact iff_of_true (List.nodup_singleton _) .nil
  | _ => exact Iff.rfl

/-- The arguments of all fields in the schema have different names, and so have the attributes in the key shapes
of all bindings, exactly if the operations of every table ask for no key twice. -/
theorem synthesize_arguments_iff {config : Config} {id : String} {label : Option String} {output : Output}
    (hb : config.BuiltAccepted) (h : synthesize id config label = .ok output) :
    ∃ last written tables, config.pass id label = .ok last ∧
      last.schema.registry.written = .ok written ∧
      output.schema = Schema.ofLines
        (Schema.rootLines last.schema.roots ++ written.flatMap TypeDefinition.lines) ∧
      config.buildTables label = .ok tables ∧
      ((∀ d ∈ written, ∀ field ∈ d.fields, field.argumentNames.Nodup) ↔ ∀ table ∈ tables, table.AsksOnce) ∧
      ((∀ binding ∈ output.bindings, binding.shape.names.Nodup) ↔ ∀ table ∈ tables, table.AsksOnce) := by
  obtain ⟨last, hp, hf⟩ := Config.synthesize_ok_iff.1 h
  obtain ⟨written, ht, htext⟩ := Config.written_of_pass hb hp hf
  obtain ⟨tables, made, htables, hmade, _, hfilled⟩ := Config.filled_of_pass hp
  have ha := Config.buildTables_accepted hb htables
  have hfollows := Config.follows_of_pass hp htables
  obtain ⟨hv, _, hbindings, _⟩ := Synthesis.finish_ok_iff.1 hf
  refine ⟨last, written, tables, hp, ht, htext, htables, ?_, ?_⟩
  · have harguments := Call.flatten_arguments (Config.calls_accepted ha) hmade
    have hfields := hfilled.forall_written_iff (p := fun _ names => names.Nodup) ht harguments
    have hnone : ∀ d ∈ firstByName (lookupKey ·.name) made.flatten, ∀ field ∈ d.fields, ([] : List String).Nodup :=
      fun _ _ _ _ => .nil
    rw [hfields, and_iff_right hnone, forall_plannedFields_iff (p := fun field => field.argumentNames.Nodup)]
    refine forall₂_congr fun table htable => ?_
    rw [← Table.keyNames_nodup_iff]
    refine forall₂_congr fun o ho => ?_
    have hplanned : (table, o) ∈ tables.flatMap Planned.ofTable := Planned.mem_tables_iff.2 ⟨htable, ho⟩
    exact Operation.argumentNames_nodup_iff (hfollows.keys_ne_input hv hplanned)
  · rw [hbindings, hfollows.bindings, List.forall_mem_map, List.forall_mem_flatMap]
    refine forall₂_congr fun table _ => ?_
    rw [← Table.keyNames_nodup_iff, Planned.ofTable, List.forall_mem_map]
    exact forall₂_congr fun o ho => (Table.candidate_of_mem_plan ho).shape_nodup_iff

/-- Dogs that are looked up by names and ages as well. -/
def dogsByName : Config :=
  { Config.empty with tables := [.declared namedDogs] }

theorem dogsByName_asks_once : ∃ last output written, dogsByName.pass "Pets" none = .ok last ∧
    last.finish = .ok output ∧ last.schema.registry.written = .ok written ∧
    ["name", "age"] ∈ output.bindings.map (·.shape.names) ∧
    (∀ d ∈ written, ∀ field ∈ d.fields, field.argumentNames.Nodup) ∧
    ∀ binding ∈ output.bindings, binding.shape.names.Nodup := by
  have hb : dogsByName.BuiltAccepted := by
    intro table hm
    simp [dogsByName] at hm
  obtain ⟨last, hp, hfinish⟩ := Except.exists_ok_of_decide (x := dogsByName.pass "Pets" none)
    (p := fun last => last.finish.toOption.any fun output =>
      decide (["name", "age"] ∈ output.bindings.map (·.shape.names))) (by decide +kernel)
  obtain ⟨output, hf, hshape⟩ := Except.exists_ok_of_decide hfinish
  obtain ⟨built, hbuilt, honce⟩ := Except.exists_ok_of_decide (x := dogsByName.buildTables none)
    (p := fun tables => ∀ table ∈ tables, table.AsksOnce) (by decide +kernel)
  have ho : synthesize "Pets" dogsByName none = .ok output := Config.synthesize_ok_iff.2 ⟨last, hp, hf⟩
  obtain ⟨same, written, tables, hsame, ht, _, htables, harguments, hshapes⟩ := synthesize_arguments_iff hb ho
  obtain rfl : same = last := Except.ok.inj (hsame.symm.trans hp)
  obtain rfl : tables = built := Except.ok.inj (htables.symm.trans hbuilt)
  exact ⟨same, output, written, hp, hf, ht, hshape, harguments.2 honce, hshapes.2 honce⟩

/-- Dogs with one attribute for both of their keys. -/
def twiceKeyedDogs : Config :=
  { Config.empty with
    tables := [.declared { TableDeclaration.ofName "Dog" (.named "dogId") with
      sort := some (.named "dogId")
      attributes := some (.typed (.ofList [("dogId", "ID!"), ("breed", "String")])) }] }

/-- The look-up of a dog takes the one argument twice, and its request gives the one attribute two values. -/
theorem twiceKeyedDogs_ask_twice : ∃ last output written, twiceKeyedDogs.pass "Pets" none = .ok last ∧
    last.finish = .ok output ∧ last.schema.registry.written = .ok written ∧
    (∃ d ∈ written, ∃ field ∈ d.fields, field.text = "getDogByDogIdAndDogId(dogId: ID! dogId: ID!): Dog") ∧
    (¬ ∀ d ∈ written, ∀ field ∈ d.fields, field.argumentNames.Nodup) ∧
    ¬ ∀ binding ∈ output.bindings, binding.shape.names.Nodup := by
  obtain ⟨last, hp, hfinish, hwritten⟩ := Except.exists_ok_of_decide (x := twiceKeyedDogs.pass "Pets" none)
    (p := fun last => (last.finish.toOption.any fun output => decide
        (¬ ∀ binding ∈ output.bindings, binding.shape.names.Nodup)) ∧
      last.schema.registry.written.toOption.any fun written => decide
        ((∃ d ∈ written, ∃ field ∈ d.fields, field.text = "getDogByDogIdAndDogId(dogId: ID! dogId: ID!): Dog") ∧
          ¬ ∀ d ∈ written, ∀ field ∈ d.fields, field.argumentNames.Nodup)) (by decide +kernel)
  obtain ⟨output, hf, hshapes⟩ := Except.exists_ok_of_decide hfinish
  obtain ⟨written, ht, hfield, harguments⟩ := Except.exists_ok_of_decide hwritten
  exact ⟨last, output, written, hp, hf, ht, hfield, harguments, hshapes⟩

end TableApi
