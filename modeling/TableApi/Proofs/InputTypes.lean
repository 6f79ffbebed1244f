import TableApi.Proofs.ClosedSchema
import TableApi.Proofs.RegisteredTypes

/-! Which types stand where a schema asks for input. A field of an input type and an argument of a root field
take the types of attributes and keys as they are declared, whatever these types are. -/
namespace TableApi

/-- Values of enums and of input types can be given as input, like those of scalars. -/
def TypeCategory.forInput : TypeCategory → Bool
  | enum | input => true
  | type | interface | union => false

namespace TypeDefinition

/-- The types that stand in input positions: those of arguments, and in an input type those of its fields. -/
def inputTypes (d : TypeDefinition) : List String :=
  (d.fields.flatMap fun field => field.arguments.map (·.type.name)) ++
    if d.category = .input then d.fields.map (·.type.name) else []

end TypeDefinition

/-- Of definitions as they are written, every input position has a scalar, an enum or an input type. -/
def InputsFit (types : List TypeDefinition) : Prop :=
  ∀ d ∈ types, ∀ name ∈ d.inputTypes,
    (∃ scalar : Scalar, name = scalar.render) ∨ ∃ e ∈ types, e.name = name ∧ e.category.forInput

instance (name : String) : Decidable (∃ scalar : Scalar, name = scalar.render) :=
  decidable_of_iff (∃ scalar ∈ Scalar.all, name = scalar.render)
    (exists_congr fun scalar => and_iff_right scalar.mem_all)

instance (types : List TypeDefinition) : Decidable (InputsFit types) := by
  unfold InputsFit
  infer_instance

/-- As names are looked up among definitions, the name is that of a scalar, an enum or an input type. -/
def NamesInput (made : List TypeDefinition) (name : String) : Prop :=
  (Scalar.ofName? name).isSome ∨ ∃ d ∈ made, lookupKey d.name = lookupKey name ∧ d.category.forInput

instance (made : List TypeDefinition) (name : String) : Decidable (NamesInput made name) :=
  inferInstanceAs (Decidable (_ ∨ _))

theorem NamesInput.mono {made more : List TypeDefinition} {name : String} (h : NamesInput made name)
    (hsub : ∀ d ∈ made, d ∈ more) : NamesInput more name :=
  h.imp_right fun ⟨d, hd, hk, hc⟩ => ⟨d, hsub d hd, hk, hc⟩

section Resolution

variable {registry : Registry} {types : List TypeDefinition} {name text : String}

theorem TypeRef.resolve_of_resolved {ref written : TypeRef} (h : ref.resolved registry = .ok written) :
    registry.resolve ref.name = .ok written.name := by
  simp only [resolved, Except.bind_ok_iff, Except.pure_ok_iff] at h
  obtain ⟨name, hname, rfl⟩ := h
  rw [withName_name, hname]

theorem FieldDefinition.resolve_of_resolved {field written : FieldDefinition}
    (h : field.resolved registry = .ok written) :
    List.Forall₂ (fun name text => registry.resolve name = .ok text)
        (field.arguments.map (·.type.name)) (written.arguments.map (·.type.name)) ∧
      registry.resolve field.type.name = .ok written.type.name := by
  simp only [resolved, Except.bind_ok_iff, Except.pure_ok_iff] at h
  obtain ⟨arguments, ha, type, ht, rfl⟩ := h
  refine ⟨?_, TypeRef.resolve_of_resolved ht⟩
  rw [List.forall₂_map_left_iff, List.forall₂_map_right_iff]
  refine (Except.mapM_ok_iff.1 ha).imp fun argument written hargument => ?_
  simp only [ArgumentDefinition.resolved, Except.bind_ok_iff, Except.pure_ok_iff] at hargument
  obtain ⟨type, htype, rfl⟩ := hargument
  exact TypeRef.resolve_of_resolved htype

namespace TypeDefinition

variable {d written : TypeDefinition}

theorem fields_of_resolved (h : d.resolved registry = .ok written) :
    List.Forall₂ (fun field written => field.resolved registry = .ok written) d.fields written.fields := by
  have hfields : ∀ fields body, d.resolvedFields registry fields body = .ok written →
      ∃ interfaces resolved, written = ⟨d.name, interfaces, body resolved⟩ ∧
        List.Forall₂ (fun field written => field.resolved registry = .ok written) fields resolved := by
    intro fields body h
    simp only [resolvedFields, Except.bind_ok_iff, Except.pure_ok_iff] at h
    obtain ⟨interfaces, _, resolved, hf, rfl⟩ := h
    exact ⟨interfaces, resolved, rfl, Except.mapM_ok_iff.1 hf⟩
  unfold resolved at h
  unfold TypeDefinition.fields
  cases hb : d.body with
  | object fields | input fields | interface fields =>
    rw [hb] at h
    obtain ⟨interfaces, resolved, rfl, hresolved⟩ := hfields _ _ h
    exact hresolved
  | union members =>
    simp only [hb, Except.bind_ok_iff, Except.pure_ok_iff] at h
    obtain ⟨names, _, rfl⟩ := h
    exact .nil
  | enum values =>
    simp only [hb, Except.ok.injEq] at h
    subst h
    exact .nil

theorem inputTypes_of_resolved (hk : registry.Keyed) (h : d.resolved registry = .ok written) :
    List.Forall₂ (fun name text => registry.resolve name = .ok text) d.inputTypes written.inputTypes := by
  have hfields := fields_of_resolved h
  have hcategory := (writes_of_resolved hk h).2.1
  refine List.rel_append (List.rel_flatMap hfields fun _ _ hf => (FieldDefinition.resolve_of_resolved hf).1) ?_
  rw [hcategory]
  split
  · rw [List.forall₂_map_left_iff, List.forall₂_map_right_iff]
    exact hfields.imp fun _ _ hf => (FieldDefinition.resolve_of_resolved hf).2
  · exact .nil

end TypeDefinition

/-- A name can be given as input exactly if the name that is written for it can. -/
theorem Registry.Filled.namesInput_iff {made : List TypeDefinition} {added : List (RootType × FieldDefinition)}
    (h : registry.Filled made added) (ht : registry.written = .ok types) (hr : registry.resolve name = .ok text) :
    NamesInput made name ↔ (∃ scalar : Scalar, text = scalar.render) ∨
      ∃ e ∈ types, e.name = text ∧ e.category.forInput := by
  have hk := h.keyed
  unfold resolve at hr
  cases hscalar : Scalar.ofName? name with
  | some scalar =>
    rw [hscalar] at hr
    have htext : text = scalar.render := (Except.ok.inj hr).symm
    simp [NamesInput, hscalar, htext]
  | none =>
    cases hg : registry.get? name with
    | none => simp [hscalar, hg] at hr
    | some d =>
      simp only [hscalar, hg, Except.ok.injEq] at hr
      subst hr
      have hd := hk.get?_mem hg
      obtain ⟨written, hwritten, hresolved⟩ := forall₂_exists_right (Except.mapM_ok_iff.1 ht) hd
      obtain ⟨hname, hcategory, _⟩ := TypeDefinition.writes_of_resolved hk hresolved
      -- on either side the one definition under the key decides
      have hmade : NamesInput made name ↔ d.category.forInput := by
        simp only [NamesInput, hscalar, Option.isSome_none, Bool.false_eq_true, false_or]
        constructor
        · rintro ⟨e, he, hkey, hinput⟩
          exact h.category_eq he hkey hg ▸ hinput
        · intro hinput
          obtain ⟨e, he, hkey, hc⟩ := h.holds_iff.1 ⟨d, hg, rfl⟩
          exact ⟨e, he, hkey, hc ▸ hinput⟩
      have hdistinct := hk.names_nodup
      rw [← hk.written_names ht] at hdistinct
      rw [hmade]
      constructor
      · intro hinput
        exact .inr ⟨written, hwritten, hname, hcategory ▸ hinput⟩
      · rintro (⟨scalar, htext⟩ | ⟨e, he, htext, hinput⟩)
        · obtain ⟨e, he, hsame⟩ := h.exists_made hd
          have hnone := h.scalars e he
          rw [hsame, htext, scalar.ofName?_render] at hnone
          cases hnone
        · obtain rfl := List.inj_on_of_nodup_map hdistinct he hwritten (htext.trans hname.symm)
          exact hcategory ▸ hinput

/-- Of a schema that can be written, the input positions fit exactly if those of its definitions name what can
be given as input. -/
theorem Registry.Filled.inputsFit_iff {made : List TypeDefinition} {added : List (RootType × FieldDefinition)}
    (h : registry.Filled made added) (ht : registry.written = .ok types) :
    InputsFit types ↔ ∀ d ∈ registry.definitions, ∀ name ∈ d.inputTypes, NamesInput made name := by
  refine (forall₂_forall_mem_iff (Except.mapM_ok_iff.1 ht) fun d written hresolved => ?_).symm
  refine forall₂_forall_mem_iff (TypeDefinition.inputTypes_of_resolved h.keyed hresolved) fun name text hr => ?_
  exact h.namesInput_iff ht hr

end Resolution

namespace TypeDefinition

variable {d : TypeDefinition} {added : List (RootType × FieldDefinition)}

/-- Where fields come without arguments, those that are added bring all arguments there are. -/
theorem inputTypes_grown (h : ∀ field ∈ d.fields, field.arguments = []) :
    (d.grown added).inputTypes =
      if d.category = .type then (d.gained added).flatMap fun field => field.arguments.map (·.type.name)
      else if d.category = .input then d.fields.map (·.type.name) else [] := by
  have hnone : (d.fields.flatMap fun field => field.arguments.map (·.type.name)) = [] := by
    refine List.flatMap_eq_nil_iff.2 fun field hf => ?_
    rw [h field hf, List.map_nil]
  by_cases hc : d.category = .type
  · rw [inputTypes, grown_fields hc, List.flatMap_append, hnone, grown_category, hc]
    simp
  · rw [grown_of_category hc, inputTypes, hnone, if_neg hc, List.nil_append]

end TypeDefinition

/-- The input positions of a schema are those of the fields that were added to roots and those of the input
types that were registered. -/
theorem Registry.Filled.forall_inputTypes_iff {registry : Registry} {made : List TypeDefinition}
    {added : List (RootType × FieldDefinition)} {p : String → Prop} (h : registry.Filled made added)
    (harguments : ∀ d ∈ made, ∀ field ∈ d.fields, field.arguments = []) :
    (∀ d ∈ registry.definitions, ∀ name ∈ d.inputTypes, p name) ↔
      (∀ field ∈ added, ∀ argument ∈ field.2.arguments, p argument.type.name) ∧
        ∀ d ∈ firstByName (lookupKey ·.name) made, d.category = .input → ∀ field ∈ d.fields, p field.type.name := by
  have hmade : ∀ d ∈ firstByName (fun d : TypeDefinition => lookupKey d.name) made, d ∈ made :=
    fun d hd => (firstByName_sublist _ _).subset hd
  rw [h.definitions, List.forall_mem_map]
  constructor
  · intro hall
    refine ⟨?_, ?_⟩
    · rintro ⟨root, field⟩ hf argument ha
      obtain ⟨d, hd, hobject, hgained⟩ := h.exists_gained hf
      refine hall d hd _ ?_
      rw [TypeDefinition.inputTypes_grown (harguments d (hmade d hd)), if_pos hobject]
      exact List.mem_flatMap.2 ⟨field, hgained, List.mem_map_of_mem ha⟩
    · intro d hd hc field hf
      refine hall d hd _ ?_
      rw [TypeDefinition.inputTypes_grown (harguments d (hmade d hd)), if_neg (by simp [hc]), if_pos hc]
      exact List.mem_map_of_mem hf
  · rintro ⟨hadded, hinputs⟩ d hd name hname
    rw [TypeDefinition.inputTypes_grown (harguments d (hmade d hd))] at hname
    split at hname
    · obtain ⟨field, hf, hname⟩ := List.mem_flatMap.1 hname
      obtain ⟨argument, ha, rfl⟩ := List.mem_map.1 hname
      obtain ⟨⟨root, _⟩, hm, rfl⟩ := List.mem_map.1 hf
      exact hadded _ (List.mem_filter.1 hm).1 argument ha
    · split at hname
      · next hc =>
        obtain ⟨field, hf, rfl⟩ := List.mem_map.1 hname
        exact hinputs d hd hc field hf
      · cases hname

namespace Config

variable {config : Config} {label : Option String} {tables : List Table} {made : List TypeDefinition}

/-- The calls of the pass over a configuration. -/
def calls (config : Config) (tables : List Table) : List Call :=
  tables.map .table ++ [.types config.types]

/-- The definitions that the pass makes, in order, those under one key among them. -/
def definitions (config : Config) (label : Option String) : Except Error (List TypeDefinition) := do
  let tables ← config.buildTables label
  return (← (config.calls tables).mapM Call.definitions).flatten

theorem calls_accepted (ha : ∀ table ∈ tables, table.Accepted) : ∀ call ∈ config.calls tables, call.Accepted := by
  intro call hc
  rcases List.mem_append.1 hc with hc | hc
  · obtain ⟨table, ht, rfl⟩ := List.mem_map.1 hc
    exact ha table ht
  · rw [List.mem_singleton.1 hc]
    trivial

/-- The types of a pass are those that its calls make, and the roots have the planned fields. -/
theorem filled_of_pass {id : String} {last : Synthesis} (h : config.pass id label = .ok last) :
    ∃ tables made, config.buildTables label = .ok tables ∧
      (config.calls tables).mapM Call.definitions = .ok made ∧ config.definitions label = .ok made.flatten ∧
      last.schema.registry.Filled made.flatten (plannedFields tables) := by
  obtain ⟨tables, htables, hrun⟩ := pass_ok_iff.1 h
  obtain ⟨made, hmade, hfilled⟩ := hrun.filled_start
  rw [planned_of_calls] at hfilled
  refine ⟨tables, made, htables, hmade, ?_, hfilled.registry⟩
  simp only [definitions, Except.bind_ok_iff, Except.pure_ok_iff]
  exact ⟨tables, htables, made, hmade, rfl⟩

end Config

/-- The input type of an operation is made with its table. -/
theorem Table.Accepted.namesInput {table : Table} {made : List TypeDefinition} {operation : Operation}
    {name : String} (ha : table.Accepted) (hm : (Call.table table).definitions = .ok made)
    (ho : operation ∈ table.plan) (hn : operation.input = some name) : NamesInput made name := by
  have hinput : table.inputTypeName = some name := by
    rcases (Table.candidate_of_mem_plan ho).input_eq with hi | hi
    · rw [hi] at hn
      cases hn
    · exact hi ▸ hn
  simp only [Call.definitions, Except.bind_ok_iff, Except.pure_ok_iff] at hm
  obtain ⟨types, htypes, rfl⟩ := hm
  obtain ⟨fields, _, ⟨hnone, _⟩ | ⟨other, inputs, hsome, _, rfl⟩⟩ := (Table.types_ok_iff ha.legalName).1 htypes
  · rw [hnone] at hinput
    cases hinput
  · obtain rfl := Option.some.inj (hsome.symm.trans hinput)
    exact .inr ⟨⟨other, [], .input inputs⟩, by simp, rfl, rfl⟩

/-- Besides inputs, arguments are the keys that operations ask for. -/
theorem forall_arguments_iff {tables : List Table} {p : String → Prop}
    (hinput : ∀ table ∈ tables, ∀ operation ∈ table.plan, ∀ name, operation.input = some name → p name) :
    (∀ field ∈ plannedFields tables, ∀ argument ∈ field.2.arguments, p argument.type.name) ↔
      ∀ table ∈ tables, ∀ operation ∈ table.plan, ∀ key ∈ operation.keys, p key.type.name := by
  rw [forall_plannedFields_iff (p := fun field => ∀ argument ∈ field.arguments, p argument.type.name)]
  refine forall₂_congr fun table ht => forall₂_congr fun operation ho => ?_
  rw [Operation.toField, List.forall_mem_append, List.forall_mem_map]
  refine and_iff_left fun argument ha => ?_
  obtain ⟨name, hname, rfl⟩ := Option.map_eq_some_iff.1 (Option.mem_toList.1 ha)
  exact hinput table ht operation ho name hname

/-- A schema has scalars, enums and input types alone in its input positions exactly if these are the types of
the keys that operations ask for and of the fields of input types, of those under one key the first. -/
theorem synthesize_inputs_iff {config : Config} {id : String} {label : Option String} {output : Output}
    (hb : config.BuiltAccepted) (h : synthesize id config label = .ok output) :
    ∃ last written tables made, config.pass id label = .ok last ∧
      last.schema.registry.written = .ok written ∧
      output.schema = Schema.ofLines
        (Schema.rootLines last.schema.roots ++ written.flatMap TypeDefinition.lines) ∧
      config.buildTables label = .ok tables ∧ config.definitions label = .ok made ∧
      (InputsFit written ↔
        (∀ table ∈ tables, ∀ operation ∈ table.plan, ∀ key ∈ operation.keys, NamesInput made key.type.name) ∧
        ∀ d ∈ firstByName (lookupKey ·.name) made, d.category = .input →
          ∀ field ∈ d.fields, NamesInput made field.type.name) := by
  obtain ⟨last, hp, hf⟩ := Config.synthesize_ok_iff.1 h
  obtain ⟨written, ht, htext⟩ := Config.written_of_pass hb hp hf
  obtain ⟨tables, made, htables, hmade, hdefinitions, hfilled⟩ := Config.filled_of_pass hp
  have ha := Config.buildTables_accepted hb htables
  have harguments := Call.flatten_arguments (Config.calls_accepted ha) hmade
  have hinput : ∀ table ∈ tables, ∀ operation ∈ table.plan, ∀ name,
      operation.input = some name → NamesInput made.flatten name := by
    intro table htable operation ho name hname
    have hcall : Call.table table ∈ config.calls tables := List.mem_append_left _ (List.mem_map_of_mem htable)
    obtain ⟨definitions, hm, hdefinitions⟩ := forall₂_exists_right (Except.mapM_ok_iff.1 hmade) hcall
    exact ((ha _ htable).namesInput hdefinitions ho hname).mono fun d hd =>
      List.mem_flatten.2 ⟨definitions, hm, hd⟩
  refine ⟨last, written, tables, made.flatten, hp, ht, htext, htables, hdefinitions, ?_⟩
  rw [hfilled.inputsFit_iff ht, hfilled.forall_inputTypes_iff harguments]
  exact and_congr_left fun _ => forall_arguments_iff hinput

/-- Dogs of a breed, whose owners are looked up by their addresses. -/
def dogsOfBreeds : Config :=
  { Config.empty with
    tables := [declared "Dog" "dogId" [("dogId", "ID!"), ("breed", "BREED"), ("owners", "[address!]")]]
    types := (AuxiliaryTypes.empty.declare .enum "Breed" (.members ["PUG", "POODLE"])).declare
      .input "Address" (.plain (.ofList [("street", "string"), ("breed", "Breed!")])) }

theorem dogsOfBreeds_inputs_fit : ∃ last output written, dogsOfBreeds.pass "Pets" none = .ok last ∧
    last.finish = .ok output ∧ last.schema.registry.written = .ok written ∧
    written.flatMap TypeDefinition.inputTypes =
      ["Breed", "Address", "ID", "ID", "DogInput", "ID", "String", "Breed"] ∧ InputsFit written := by
  have hb : dogsOfBreeds.BuiltAccepted := by
    intro table hm
    simp [dogsOfBreeds, declared] at hm
  obtain ⟨last, hp, hfinish, hwritten⟩ := Except.exists_ok_of_decide (x := dogsOfBreeds.pass "Pets" none)
    (p := fun last => (last.finish.toOption.any fun _ => decide True) ∧
      last.schema.registry.written.toOption.any fun written => decide
        (written.flatMap TypeDefinition.inputTypes =
          ["Breed", "Address", "ID", "ID", "DogInput", "ID", "String", "Breed"])) (by decide +kernel)
  obtain ⟨output, hf, _⟩ := Except.exists_ok_of_decide hfinish
  obtain ⟨written, ht, hinputs⟩ := Except.exists_ok_of_decide hwritten
  have ho : synthesize "Pets" dogsOfBreeds none = .ok output := Config.synthesize_ok_iff.2 ⟨last, hp, hf⟩
  obtain ⟨definitions, hdefinitions, hdeclared⟩ :=
    Except.exists_ok_of_decide (x := dogsOfBreeds.definitions none)
      (p := fun made => (dogsOfBreeds.buildTables none).toOption.any fun tables => decide
        ((∀ table ∈ tables, ∀ operation ∈ table.plan, ∀ key ∈ operation.keys, NamesInput made key.type.name) ∧
          ∀ d ∈ firstByName (lookupKey ·.name) made, d.category = .input →
            ∀ field ∈ d.fields, NamesInput made field.type.name)) (by decide +kernel)
  obtain ⟨built, hbuilt, hconditions⟩ := Except.exists_ok_of_decide hdeclared
  obtain ⟨same, others, tables, made, hsame, hothers, _, htables, hmade, hiff⟩ := synthesize_inputs_iff hb ho
  obtain rfl : same = last := Except.ok.inj (hsame.symm.trans hp)
  obtain rfl : others = written := Except.ok.inj (hothers.symm.trans ht)
  obtain rfl : tables = built := Except.ok.inj (htables.symm.trans hbuilt)
  obtain rfl : made = definitions := Except.ok.inj (hmade.symm.trans hdefinitions)
  exact ⟨same, output, others, hp, hf, ht, hinputs, hiff.2 hconditions⟩

/-- The input type of cats asks for a dog, which is no input. -/
theorem dogsAndCats_inputs_do_not_fit : ∃ last output written, dogsAndCats.pass "Pets" none = .ok last ∧
    last.finish = .ok output ∧ last.schema.registry.written = .ok written ∧
    (∃ d ∈ written, d.name = "CatInput" ∧ d.inputTypes = ["Dog"]) ∧ ¬ InputsFit written := by
  obtain ⟨last, hp, hfinish, hwritten⟩ := Except.exists_ok_of_decide (x := dogsAndCats.pass "Pets" none)
    (p := fun last => (last.finish.toOption.any fun _ => decide True) ∧
      last.schema.registry.written.toOption.any fun written => decide
        ((∃ d ∈ written, d.name = "CatInput" ∧ d.inputTypes = ["Dog"]) ∧ ¬ InputsFit written))
    (by decide +kernel)
  obtain ⟨output, hf, _⟩ := Except.exists_ok_of_decide hfinish
  obtain ⟨written, ht, hinput, hno⟩ := Except.exists_ok_of_decide hwritten
  exact ⟨last, output, written, hp, hf, ht, hinput, hno⟩

end TableApi
