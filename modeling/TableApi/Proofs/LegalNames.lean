import TableApi.Proofs.IndexReach
import TableApi.Proofs.InputTypes
import TableApi.Proofs.KeyConditions

/-! Which names stand in the text of a schema, and where they are legal. All names are checked or put together
from checked ones, except those of the fields of types that are declared beside the tables. -/
namespace TableApi

section Characters

/-- The characters can go on in a name. -/
def ContinuesName (text : String) : Prop :=
  text.toList.all isNameChar

variable {name text more : String} {keys : List String}

theorem continuesName_of_legal (h : isLegalName name) : ContinuesName name :=
  List.all_eq_true.2 (isNameChar_of_legal h)

theorem ContinuesName.append (h : ContinuesName text) (hm : ContinuesName more) :
    ContinuesName (text ++ more) := by
  unfold ContinuesName at *
  rw [String.toList_append, List.all_append, h, hm, Bool.and_true]

theorem isNameChar_toUpper {c : Char} (h : isNameChar c) : isNameChar c.toUpper :=
  char_of_codes (p := fun c => isNameChar c → isNameChar c.toUpper) (by decide) (toNat_lt_of_isNameChar h) h

theorem ContinuesName.capitalize (h : ContinuesName name) : ContinuesName (Text.capitalize name) := by
  unfold ContinuesName Text.capitalize at *
  rw [String.toList_ofList]
  cases hn : name.toList with
  | nil => rfl
  | cons c cs =>
    rw [hn, List.all_cons, Bool.and_eq_true] at h
    rw [Text.capitalizeChars, Text.upperChar_ascii (toNat_lt_of_isNameChar h.1), List.singleton_append,
      List.all_cons, isNameChar_toUpper h.1, h.2, Bool.and_true]

theorem continuesName_spelling (h : ∀ key ∈ keys, ContinuesName key) : ContinuesName (spelling keys) := by
  induction keys with
  | nil => rfl
  | cons key keys ih =>
    rw [List.forall_mem_cons] at h
    have hkey := h.1.capitalize
    cases keys with
    | nil => simpa [spelling] using hkey
    | cons next keys =>
      have hnext := ih h.2
      have hand : ContinuesName "And" := rfl
      rw [spelling, List.map_cons, List.map_cons, String.intercalate_cons_cons, ← List.map_cons]
      exact (hkey.append hand).append hnext

end Characters

section Operations

variable {table : Table} {o : Operation}

theorem legal_verb : ∀ verb ∈ verbs, isLegalName verb := by decide

theorem RootType.legal_typeName (root : RootType) : isLegalName root.typeName := by
  cases root <;> decide

theorem Scalar.legal_render (scalar : Scalar) : isLegalName scalar.render := by
  cases scalar <;> decide

namespace Candidate

/-- The name of an operation is legal, however many names it is put together from. -/
theorem legal_name (h : Candidate table o) (ha : table.Accepted) : isLegalName o.name := by
  have hbase : ∀ verb ∈ verbs, isLegalName (verb ++ table.baseName) := fun verb hv =>
    isLegalName_append (legal_verb verb hv) (continuesName_of_legal ha.legalName)
  have hspelt : o.ByKeys → isLegalName o.name := by
    intro hk
    have hkeys : ContinuesName (spelling o.keyNames) :=
      continuesName_spelling fun name hname => continuesName_of_legal (h.legal_key ha name hname)
    rw [h.name_spelt hk]
    exact isLegalName_append (isLegalName_append (hbase _ o.verb_mem) (by decide)) hkeys
  cases h with
  | scan => exact hbase "scan" (by decide)
  | create => exact hbase "create" (by decide)
  | put => exact hbase "put" (by decide)
  | delete => exact hbase "delete" (by decide)
  | change => exact isLegalName_append (hbase "on" (by decide)) (by decide)
  | get => exact hspelt (.inl rfl)
  | list | globalPartition | globalSort | localSort => exact hspelt (.inr rfl)

end Candidate

/-- The names of a field's arguments. -/
def FieldDefinition.argumentNames (field : FieldDefinition) : List String :=
  field.arguments.map ArgumentDefinition.name

/-- A field of an operation takes its keys and maybe an input. -/
theorem Operation.argumentNames_toField {base : String} :
    (o.toField base).argumentNames = o.keyNames ++ (o.input.map fun _ => "input").toList := by
  rw [FieldDefinition.argumentNames, toField, List.map_append, List.map_map, keyNames]
  cases o.input <;> rfl

theorem Candidate.legal_argument {base : String} (h : Candidate table o) (ha : table.Accepted) :
    ∀ name ∈ (o.toField base).argumentNames, isLegalName name := by
  rw [Operation.argumentNames_toField]
  intro name hname
  rcases List.mem_append.1 hname with hname | hname
  · exact h.legal_key ha name hname
  · obtain ⟨_, _, rfl⟩ := Option.map_eq_some_iff.1 (Option.mem_toList.1 hname)
    decide

end Operations

namespace TypeDefinition

variable {d : TypeDefinition} {text : String} {body : TypeBody} {interfaces : List String}

/-- The values of an enum. -/
def values (d : TypeDefinition) : List String :=
  match d.body with
  | .enum values => values
  | _ => []

/-- The names that a definition is written with, but for those of its fields. -/
def otherNames (d : TypeDefinition) : List String :=
  d.name :: d.mentions ++ d.values ++ d.fields.flatMap FieldDefinition.argumentNames

/-- All names that a definition is written with. -/
def identifiers (d : TypeDefinition) : List String :=
  d.otherNames ++ d.fields.map FieldDefinition.name

/-- A definition is made under a legal name, and an enum with legal values. -/
structure Named (d : TypeDefinition) : Prop where
  name : isLegalName d.name
  values : ∀ value ∈ d.values, isLegalName value

theorem make_named (h : make text body interfaces = .ok d) : d.Named := by
  unfold make at h
  obtain ⟨name, hname, h⟩ := Except.bind_ok_iff.1 h
  have hlegal : isLegalName name := by
    simp only [usableName] at hname
    split at hname
    · next hl => exact Except.ok.inj hname ▸ hl
    · cases hname
  cases body with
  | enum values =>
    dsimp only at h
    split at h
    · cases h
    · next hnone =>
      obtain rfl := Except.pure_ok_iff.1 h
      refine ⟨hlegal, fun value hv => ?_⟩
      simpa using List.find?_eq_none.1 hnone value hv
  | _ =>
    obtain rfl := Except.pure_ok_iff.1 h
    exact ⟨hlegal, fun value hv => absurd hv List.not_mem_nil⟩

theorem grown_named {added : List (RootType × FieldDefinition)} (h : d.Named) : (d.grown added).Named := by
  refine ⟨by simpa using h.name, ?_⟩
  unfold grown
  split
  · exact fun value hv => absurd hv List.not_mem_nil
  · exact h.values

end TypeDefinition

theorem AuxiliaryTypes.define_named {category : TypeCategory} {name : String} {shape : TypeShape}
    {d : TypeDefinition} (h : define category name shape = .ok d) : d.Named := by
  unfold define at h
  split at h
  · exact TypeDefinition.make_named h
  · exact TypeDefinition.make_named h
  · cases h
  · cases h
  · cases h
  all_goals
    obtain ⟨_, _, h⟩ := Except.bind_ok_iff.1 h
    exact TypeDefinition.make_named h

theorem Declares.mem_names {entries : List (String × String)} {fields : List FieldDefinition}
    {field : FieldDefinition} (h : Declares entries fields) (hf : field ∈ fields) :
    field.name ∈ entries.map Prod.fst := by
  obtain ⟨entry, he, hname, _⟩ := forall₂_exists_left h hf
  rw [hname]
  exact List.mem_map_of_mem he

/-- The types of a table have legal names and fields of legal names. -/
theorem Table.Accepted.types_named {table : Table} {types : List TypeDefinition} (h : table.Accepted)
    (ht : table.types = .ok types) :
    ∀ d ∈ types, d.Named ∧ ∀ field ∈ d.fields, isLegalName field.name := by
  have hfields : ∀ attributes : Attributes, (∀ entry ∈ attributes.entries, entry ∈ table.attributes.entries) →
      ∀ fields, Declares attributes.entries fields → ∀ field ∈ fields, isLegalName field.name := by
    intro attributes hsub fields hdeclares field hf
    obtain ⟨entry, he, hname⟩ := List.mem_map.1 (hdeclares.mem_names hf)
    rw [← hname]
    exact h.legal_attribute (List.mem_map_of_mem (hsub entry he))
  have hobject := hfields table.attributes fun _ he => he
  have hinput := hfields table.inputAttributes fun _ he => (mem_inputAttributes.1 he).1
  have hnamed : ∀ name body, isLegalName name → (∀ value, body ≠ TypeBody.enum value) →
      TypeDefinition.Named ⟨name, [], body⟩ := by
    intro name body hname hbody
    refine ⟨hname, fun value hv => ?_⟩
    cases body with
    | enum values => exact absurd rfl (hbody values)
    | _ => cases hv
  obtain ⟨fields, hf, ⟨_, rfl⟩ | ⟨name, inputs, hname, hi, rfl⟩⟩ := (types_ok_iff h.legalName).1 ht
  · intro d hd
    rw [List.mem_singleton.1 hd]
    exact ⟨hnamed _ _ h.legalName (by simp), hobject _ hf⟩
  · have hlegal : isLegalName name := by
      rw [(inputTypeName_eq_some_iff.1 hname).2]
      exact isLegalName_append h.legalName (by decide)
    intro d hd
    rcases List.mem_pair.1 hd with rfl | rfl
    · exact ⟨hnamed _ _ h.legalName (by simp), hobject _ hf⟩
    · exact ⟨hnamed _ _ hlegal (by simp), hinput _ hi⟩

namespace Call

variable {call : Call} {definitions : List TypeDefinition}

theorem definitions_named (ha : call.Accepted) (h : call.definitions = .ok definitions) :
    ∀ d ∈ definitions, d.Named := by
  intro d hd
  cases call with
  | table added =>
    simp only [Call.definitions, Except.bind_ok_iff, Except.pure_ok_iff] at h
    obtain ⟨types, htypes, rfl⟩ := h
    rcases List.mem_append.1 hd with hd | hd
    · exact (Table.Accepted.types_named ha htypes d hd).1
    · obtain ⟨operation, _, rfl⟩ := List.mem_map.1 hd
      exact ⟨operation.root.legal_typeName, fun value hv => absurd hv List.not_mem_nil⟩
  | types declared =>
    obtain ⟨declaration, _, hdefine⟩ := Except.exists_of_mapM_ok h hd
    exact AuxiliaryTypes.define_named hdefine
  | text added =>
    obtain rfl := Except.ok.inj h
    cases hd

theorem flatten_named {calls : List Call} {made : List (List TypeDefinition)}
    (ha : ∀ call ∈ calls, call.Accepted) (h : calls.mapM Call.definitions = .ok made) :
    ∀ d ∈ made.flatten, d.Named := by
  intro d hd
  obtain ⟨definitions, hm, hd⟩ := List.mem_flatten.1 hd
  obtain ⟨call, hc, hcall⟩ := Except.exists_of_mapM_ok h hm
  exact definitions_named (ha call hc) hcall d hd

/-- What a table brings has legal names throughout. -/
theorem legal_fields_of_table {table : Table} (ha : table.Accepted)
    (h : (Call.table table).definitions = .ok definitions) :
    ∀ d ∈ definitions, ∀ field ∈ d.fields, isLegalName field.name := by
  simp only [Call.definitions, Except.bind_ok_iff, Except.pure_ok_iff] at h
  obtain ⟨types, htypes, rfl⟩ := h
  intro d hd field hf
  rcases List.mem_append.1 hd with hd | hd
  · exact (ha.types_named htypes d hd).2 field hf
  · obtain ⟨operation, _, rfl⟩ := List.mem_map.1 hd
    cases hf

end Call

section Writing

variable {registry : Registry} {types made : List TypeDefinition} {d written : TypeDefinition}
  {added : List (RootType × FieldDefinition)}

theorem FieldDefinition.names_of_resolved {field written : FieldDefinition}
    (h : field.resolved registry = .ok written) :
    written.name = field.name ∧ written.argumentNames = field.argumentNames := by
  simp only [resolved, Except.bind_ok_iff, Except.pure_ok_iff] at h
  obtain ⟨arguments, ha, _, _, rfl⟩ := h
  refine ⟨rfl, Except.map_eq_of_mapM_ok ha fun argument written hargument => ?_⟩
  simp only [ArgumentDefinition.resolved, Except.bind_ok_iff, Except.pure_ok_iff] at hargument
  obtain ⟨_, _, rfl⟩ := hargument
  rfl

theorem TypeDefinition.values_of_resolved (h : d.resolved registry = .ok written) :
    written.values = d.values := by
  unfold resolved at h
  unfold values
  cases hb : d.body with
  | object fields | input fields | interface fields =>
    simp only [hb, resolvedFields, Except.bind_ok_iff, Except.pure_ok_iff] at h
    obtain ⟨_, _, _, _, rfl⟩ := h
    rfl
  | union members =>
    simp only [hb, Except.bind_ok_iff, Except.pure_ok_iff] at h
    obtain ⟨_, _, rfl⟩ := h
    rfl
  | enum values =>
    simp only [hb, Except.ok.injEq] at h
    subst h
    rfl

/-- Fields and arguments are written under the names that they have. -/
theorem Registry.forall_written_iff {p : String → List String → Prop} (ht : registry.written = .ok types) :
    (∀ d ∈ types, ∀ field ∈ d.fields, p field.name field.argumentNames) ↔
      ∀ d ∈ registry.definitions, ∀ field ∈ d.fields, p field.name field.argumentNames := by
  refine (forall₂_forall_mem_iff (Except.mapM_ok_iff.1 ht) fun d written hd => ?_).symm
  refine forall₂_forall_mem_iff (TypeDefinition.fields_of_resolved hd) fun field written hf => ?_
  obtain ⟨hname, harguments⟩ := FieldDefinition.names_of_resolved hf
  rw [hname, harguments]

/-- The written fields are those of the first definitions and those that were added to roots. -/
theorem Registry.Filled.forall_written_iff {p : String → List String → Prop} (h : registry.Filled made added)
    (ht : registry.written = .ok types) (harguments : ∀ d ∈ made, ∀ field ∈ d.fields, field.arguments = []) :
    (∀ d ∈ types, ∀ field ∈ d.fields, p field.name field.argumentNames) ↔
      (∀ d ∈ firstByName (lookupKey ·.name) made, ∀ field ∈ d.fields, p field.name []) ∧
        ∀ field ∈ added, p field.2.name field.2.argumentNames := by
  rw [Registry.forall_written_iff ht, h.forall_fields_iff]
  refine and_congr_left fun _ => forall₂_congr fun d hd => forall₂_congr fun field hf => ?_
  rw [FieldDefinition.argumentNames, harguments d ((firstByName_sublist _ _).subset hd) field hf, List.map_nil]

theorem Registry.Filled.named (h : registry.Filled made added) (hmade : ∀ d ∈ made, d.Named) :
    ∀ d ∈ registry.definitions, d.Named := by
  rw [h.definitions, List.forall_mem_map]
  intro d hd
  exact TypeDefinition.grown_named (hmade d ((firstByName_sublist _ _).subset hd))

/-- Types are mentioned under the names that they are defined by. -/
theorem Registry.Filled.legal_otherNames (h : registry.Filled made added) (ht : registry.written = .ok types)
    (hmade : ∀ d ∈ made, d.Named) (harguments : ∀ d ∈ made, ∀ field ∈ d.fields, field.arguments = [])
    (hadded : ∀ field ∈ added, ∀ name ∈ field.2.argumentNames, isLegalName name) :
    ∀ d ∈ types, ∀ name ∈ d.otherNames, isLegalName name := by
  have hnamed := h.named hmade
  have hfields : ∀ d ∈ types, ∀ field ∈ d.fields, ∀ name ∈ field.argumentNames, isLegalName name := by
    refine (h.forall_written_iff (p := fun _ names => ∀ name ∈ names, isLegalName name) ht
      harguments).2 ⟨?_, hadded⟩
    exact fun _ _ _ _ name hname => absurd hname List.not_mem_nil
  intro written hw name hname
  obtain ⟨d, hd, hresolved⟩ := Except.exists_of_mapM_ok ht hw
  obtain ⟨hsame, _, hwrites⟩ := TypeDefinition.writes_of_resolved h.keyed hresolved
  simp only [TypeDefinition.otherNames, List.cons_append, List.mem_cons, List.mem_append,
    List.mem_flatMap] at hname
  rcases hname with rfl | (hname | hname) | ⟨field, hf, hname⟩
  · exact hsame ▸ (hnamed d hd).name
  · rcases hwrites name hname with ⟨scalar, rfl⟩ | ⟨e, he, rfl⟩
    · exact scalar.legal_render
    · exact (hnamed e he).name
  · rw [TypeDefinition.values_of_resolved hresolved] at hname
    exact (hnamed d hd).values name hname
  · exact hfields written hw field hf name hname

end Writing

namespace Config

variable {config : Config} {tables : List Table} {types : List TypeDefinition}
  {made : List (List TypeDefinition)} {d : TypeDefinition}

theorem exists_declared (h : (config.calls tables).mapM Call.definitions = .ok made) :
    ∃ types, config.types.definitions = .ok types := by
  have hc : Call.types config.types ∈ config.calls tables := by simp [calls]
  obtain ⟨types, _, ht⟩ := forall₂_exists_right (Except.mapM_ok_iff.1 h) hc
  exact ⟨types, ht⟩

/-- What is made in a pass comes with a table or is declared. -/
theorem mem_made (h : (config.calls tables).mapM Call.definitions = .ok made)
    (ht : config.types.definitions = .ok types) (hd : d ∈ made.flatten) :
    (∃ table ∈ tables, ∃ definitions, (Call.table table).definitions = .ok definitions ∧ d ∈ definitions) ∨
      d ∈ types := by
  obtain ⟨definitions, hm, hd⟩ := List.mem_flatten.1 hd
  obtain ⟨call, hc, hcall⟩ := Except.exists_of_mapM_ok h hm
  rcases List.mem_append.1 hc with hc | hc
  · obtain ⟨table, htable, rfl⟩ := List.mem_map.1 hc
    exact .inl ⟨table, htable, definitions, hcall, hd⟩
  · rw [List.mem_singleton.1 hc] at hcall
    obtain rfl : types = definitions := Except.ok.inj (ht.symm.trans hcall)
    exact .inr hd

end Config

/-- In a schema all names but those of fields are legal. Those of fields are exactly if the fields of declared
types have legal names; of types under one key only the first counts. -/
theorem synthesize_identifiers_iff {config : Config} {id : String} {label : Option String} {output : Output}
    (hb : config.BuiltAccepted) (h : synthesize id config label = .ok output) :
    ∃ last written made types, config.pass id label = .ok last ∧
      last.schema.registry.written = .ok written ∧
      output.schema = Schema.ofLines
        (Schema.rootLines last.schema.roots ++ written.flatMap TypeDefinition.lines) ∧
      config.definitions label = .ok made ∧ config.types.definitions = .ok types ∧
      (∀ d ∈ written, ∀ name ∈ d.otherNames, isLegalName name) ∧
      ((∀ d ∈ written, ∀ name ∈ d.identifiers, isLegalName name) ↔
        ∀ d ∈ types, d ∈ firstByName (lookupKey ·.name) made → ∀ field ∈ d.fields, isLegalName field.name) := by
  obtain ⟨last, hp, hf⟩ := Config.synthesize_ok_iff.1 h
  obtain ⟨written, ht, htext⟩ := Config.written_of_pass hb hp hf
  obtain ⟨tables, made, htables, hmade, hdefinitions, hfilled⟩ := Config.filled_of_pass hp
  obtain ⟨types, htypes⟩ := Config.exists_declared hmade
  have ha := Config.buildTables_accepted hb htables
  have hcalls : ∀ call ∈ config.calls tables, call.Accepted := Config.calls_accepted ha
  have harguments := Call.flatten_arguments hcalls hmade
  have hnamed := Call.flatten_named hcalls hmade
  have hplanned : ∀ field ∈ plannedFields tables,
      isLegalName field.2.name ∧ ∀ name ∈ field.2.argumentNames, isLegalName name := by
    rw [forall_plannedFields_iff
      (p := fun field => isLegalName field.name ∧ ∀ name ∈ field.argumentNames, isLegalName name)]
    intro table htable o ho
    have hc := Table.candidate_of_mem_plan ho
    exact ⟨hc.legal_name (ha table htable), hc.legal_argument (ha table htable)⟩
  have hothers := hfilled.legal_otherNames ht hnamed harguments fun field hfield => (hplanned field hfield).2
  refine ⟨last, written, made.flatten, types, hp, ht, htext, hdefinitions, htypes, hothers, ?_⟩
  have hfields := hfilled.forall_written_iff (p := fun name _ => isLegalName name) ht harguments
  have hidentifiers : (∀ d ∈ written, ∀ name ∈ d.identifiers, isLegalName name) ↔
      ∀ d ∈ written, ∀ field ∈ d.fields, isLegalName field.name := by
    refine forall₂_congr fun d hd => ?_
    rw [TypeDefinition.identifiers, List.forall_mem_append, List.forall_mem_map]
    exact and_iff_right (hothers d hd)
  rw [hidentifiers, hfields]
  constructor
  · intro hall d _ hfirst
    exact hall.1 d hfirst
  · intro hdeclared
    refine ⟨fun d hd => ?_, fun field hfield => (hplanned field hfield).1⟩
    rcases Config.mem_made hmade htypes ((firstByName_sublist _ _).subset hd) with
      ⟨table, htable, definitions, hcall, hm⟩ | hm
    · exact Call.legal_fields_of_table (ha table htable) hcall d hm
    · exact hdeclared d hm hd

theorem dogsAmongPets_identifiers_legal : ∃ last output written, dogsAmongPets.pass "Pets" none = .ok last ∧
    last.finish = .ok output ∧ last.schema.registry.written = .ok written ∧
    (written.filter (·.category = .enum)).flatMap TypeDefinition.identifiers = ["Breed", "PUG", "POODLE"] ∧
    (written.filter (·.category = .interface)).flatMap TypeDefinition.identifiers =
      ["Named", "String", "name"] ∧
    ∀ d ∈ written, ∀ name ∈ d.identifiers, isLegalName name := by
  have hb : dogsAmongPets.BuiltAccepted := by
    intro table hm
    simp [dogsAmongPets, declared] at hm
  obtain ⟨last, hp, hfinish, hwritten⟩ := Except.exists_ok_of_decide (x := dogsAmongPets.pass "Pets" none)
    (p := fun last => (last.finish.toOption.any fun _ => decide True) ∧
      last.schema.registry.written.toOption.any fun written => decide
        ((written.filter (·.category = .enum)).flatMap TypeDefinition.identifiers = ["Breed", "PUG", "POODLE"] ∧
          (written.filter (·.category = .interface)).flatMap TypeDefinition.identifiers =
            ["Named", "String", "name"])) (by decide +kernel)
  obtain ⟨output, hf, _⟩ := Except.exists_ok_of_decide hfinish
  obtain ⟨written, ht, henums, hinterfaces⟩ := Except.exists_ok_of_decide hwritten
  have ho : synthesize "Pets" dogsAmongPets none = .ok output := Config.synthesize_ok_iff.2 ⟨last, hp, hf⟩
  obtain ⟨declared, hdeclared, hlegal⟩ := Except.exists_ok_of_decide (x := dogsAmongPets.types.definitions)
    (p := fun declared => ∀ d ∈ declared, ∀ field ∈ d.fields, isLegalName field.name) (by decide +kernel)
  obtain ⟨same, others, made, types, hsame, hothers, _, _, htypes, _, hiff⟩ := synthesize_identifiers_iff hb ho
  obtain rfl : same = last := Except.ok.inj (hsame.symm.trans hp)
  obtain rfl : others = written := Except.ok.inj (hothers.symm.trans ht)
  obtain rfl : types = declared := Except.ok.inj (htypes.symm.trans hdeclared)
  exact ⟨same, output, others, hp, hf, ht, henums, hinterfaces, hiff.2 fun d hd _ => hlegal d hd⟩

/-- Dogs and their owners, of whom a first name is declared in two words. -/
def dogsOfOwners : Config :=
  { Config.empty with
    tables := [declared "Dog" "dogId" [("dogId", "ID!"), ("breed", "String")]]
    types := AuxiliaryTypes.empty.declare .type "Owner" (.plain (.ofList [("first name", "String")])) }

/-- The two words are written as the name of a field. -/
theorem dogsOfOwners_identifiers_not_legal : ∃ last output written, dogsOfOwners.pass "Pets" none = .ok last ∧
    last.finish = .ok output ∧ last.schema.registry.written = .ok written ∧
    (∃ d ∈ written, d.lines = ["type Owner \x7b", "  first name: String", "\x7d"]) ∧
    ¬ ∀ d ∈ written, ∀ name ∈ d.identifiers, isLegalName name := by
  obtain ⟨last, hp, hfinish, hwritten⟩ := Except.exists_ok_of_decide (x := dogsOfOwners.pass "Pets" none)
    (p := fun last => (last.finish.toOption.any fun _ => decide True) ∧
      last.schema.registry.written.toOption.any fun written => decide
        ((∃ d ∈ written, d.lines = ["type Owner \x7b", "  first name: String", "\x7d"]) ∧
          ¬ ∀ d ∈ written, ∀ name ∈ d.identifiers, isLegalName name)) (by decide +kernel)
  obtain ⟨output, hf, _⟩ := Except.exists_ok_of_decide hfinish
  obtain ⟨written, ht, howner, hno⟩ := Except.exists_ok_of_decide hwritten
  exact ⟨last, output, written, hp, hf, ht, howner, hno⟩

end TableApi
