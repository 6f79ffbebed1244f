import TableApi.Proofs.Assembly
import TableApi.Proofs.KeyConditions

/-! Which types the arguments of operations have. A key has the type that stands with it, else that of the
attribute of its name; so where no key comes with a type of its own, an argument and a field of one name have one
type. -/
namespace TableApi

namespace Table

variable {table : Table} {declaration : TableDeclaration} {label : Option String}

/-- The attribute of the name is declared with the type. -/
def Typed (table : Table) (name : String) (type : TypeRef) : Prop :=
  ∃ text, table.attributes.get? name = some text ∧ TypeRef.parse? text = some type

theorem Typed.unique {name : String} {type other : TypeRef} (h : table.Typed name type)
    (g : table.Typed name other) : type = other := by
  obtain ⟨text, htext, htype⟩ := h
  obtain ⟨same, hsame, hother⟩ := g
  obtain rfl : text = same := Option.some.inj (htext.symm.trans hsame)
  exact Option.some.inj (htype.symm.trans hother)

/-- The declaration of a key of this name tells its type, be it with the key or with the attribute. -/
theorem exists_declared (h : ofDeclaration declaration label = .ok table) {key : Key} (hk : key ∈ table.allKeys) :
    ∃ declared ∈ declaration.keys, declared.name = key.name ∧
      ∃ text, declared.typeText table.attributes = some text ∧ TypeRef.parse? text = some key.type := by
  have hassembled := assembled_of_declaration h
  obtain ⟨declared, hd, hname, htype⟩ := forall₂_exists_left hassembled.keys_read hk
  have hattribute : declared.name ∈ declaration.attributeMap.names := by
    rw [← hname, ← hassembled.attributes]
    exact (accepted_of_declaration h).key_declared hk
  obtain ⟨text, htext⟩ := KeyDeclaration.exists_typeText hattribute
  exact ⟨declared, hd, hname.symm, text, hassembled.attributes ▸ htext, htype text htext⟩

theorem keys_typed (h : ofDeclaration declaration label = .ok table)
    (hown : ∀ key ∈ declaration.keys, key.ownType = none) : ∀ key ∈ table.allKeys, table.Typed key.name key.type := by
  intro key hk
  obtain ⟨declared, hd, hname, text, htext, htype⟩ := exists_declared h hk
  rw [KeyDeclaration.typeText, hown declared hd, hname] at htext
  exact ⟨text, htext, htype⟩

/-- The fields of the object type and of the input type are those of attributes. -/
theorem fields_typed {types : List TypeDefinition} (hl : isLegalName table.baseName) (ht : table.types = .ok types) :
    ∀ d ∈ types, ∀ field ∈ d.fields, table.Typed field.name field.type := by
  have hdeclared : ∀ (attributes : Attributes) (fields : List FieldDefinition),
      (∀ entry ∈ attributes.entries, entry ∈ table.attributes.entries) → Declares attributes.entries fields →
      ∀ field ∈ fields, table.Typed field.name field.type := by
    intro attributes fields hsub hfields field hf
    obtain ⟨entry, he, hname, _, htype⟩ := forall₂_exists_left hfields hf
    rw [hname]
    exact ⟨entry.2, OrderedMap.get?_eq_some_iff.2 (hsub entry he), htype⟩
  have hinputs : ∀ entry ∈ table.inputAttributes.entries, entry ∈ table.attributes.entries :=
    fun entry he => (mem_inputAttributes.1 he).1
  obtain ⟨fields, hf, ⟨_, rfl⟩ | ⟨name, inputs, _, hi, rfl⟩⟩ := (types_ok_iff hl).1 ht
  · exact List.forall_mem_singleton.2 (hdeclared _ fields (fun _ he => he) hf)
  · exact List.forall_mem_cons.2 ⟨hdeclared _ fields (fun _ he => he) hf,
      List.forall_mem_singleton.2 (hdeclared _ inputs hinputs hi)⟩

/-- Where no key comes with a type of its own, the arguments of all operations, of their resolvers and, but for the
input, of their root fields have the types of the attributes of their names, and so have the fields of the table's
types. -/
theorem arguments_typed (h : ofDeclaration declaration label = .ok table)
    (hown : ∀ key ∈ declaration.keys, key.ownType = none) :
    ∃ types, table.types = .ok types ∧ ∀ o ∈ table.plan,
      (∀ key ∈ o.keys, table.Typed key.name key.type) ∧
      (∀ key ∈ (table.bindingOf o).keys, table.Typed key.name key.type) ∧
      ∀ argument ∈ (o.toField table.baseName).arguments, argument.name ≠ "input" →
        table.Typed argument.name argument.type ∧
        ∀ d ∈ types, ∀ field ∈ d.fields, field.name = argument.name → field.type = argument.type := by
  have haccepted := accepted_of_declaration h
  obtain ⟨types, htypes⟩ := haccepted.exists_types
  refine ⟨types, htypes, fun o ho => ?_⟩
  have hkeys : ∀ key ∈ o.keys, table.Typed key.name key.type := by
    intro argument hargument
    obtain ⟨key, hk, hsame⟩ := (candidate_of_mem_plan ho).exists_ofKey hargument
    rw [← hsame]
    exact keys_typed h hown key (mem_allKeys_of_keysAt hk)
  refine ⟨hkeys, hkeys, fun argument hargument hname => ?_⟩
  have htyped : table.Typed argument.name argument.type := by
    rcases List.mem_append.1 hargument with hkey | hinput
    · obtain ⟨key, hk, rfl⟩ := List.mem_map.1 hkey
      exact hkeys key hk
    · obtain ⟨input, _, rfl⟩ := Option.map_eq_some_iff.1 (Option.mem_toList.1 hinput)
      exact absurd rfl hname
  refine ⟨htyped, fun d hd field hf hsame => ?_⟩
  have hfield := fields_typed haccepted.legalName htypes d hd field hf
  exact hfield.unique (hsame ▸ htyped)

end Table

/-- Events with keys that come ready built, of other types than those of the attributes and in these roles. -/
def builtEvents (first second : KeyRole) : TableDeclaration :=
  { TableDeclaration.ofName "Event" (.built ⟨"place", .named "Int", first⟩) with
    sort := some (.reference "time" none (some second))
    attributes := some (.typed (.ofList [("place", "ID!"), ("time", "Int!"), ("title", "String"), ("rating", "[Int]")]))
    globalIndexes := [.built ⟨"byTitle", ⟨"title", .listOf "Float", second⟩, some ⟨"rating", .named "ID", first⟩, false,
      .all, .onDemand⟩]
    localIndexes := [.built ⟨"byRating", ⟨"rating", .named "Boolean", first⟩, .keysOnly⟩] }

/-- In wrong roles too, the keys take on the types of the attributes. -/
theorem builtEvents_typed : ∃ table, Table.ofDeclaration (builtEvents .sort .partition) none = .ok table ∧
    (table.plan.map fun o => (o.name, o.keys.map fun key => (key.name, key.type.render))) =
      [("getEventByPlaceAndTime", [("place", "ID!"), ("time", "Int!")]), ("listEventByPlace", [("place", "ID!")]),
        ("listEventByTitle", [("title", "String")]),
        ("getEventByTitleAndRating", [("title", "String"), ("rating", "[Int]")]),
        ("getEventByPlaceAndRating", [("place", "ID!"), ("rating", "[Int]")]),
        ("putEvent", [("place", "ID!"), ("time", "Int!")]), ("deleteEvent", [("place", "ID!"), ("time", "Int!")])] ∧
    ∃ types, table.types = .ok types ∧ ∀ o ∈ table.plan,
      (∀ key ∈ o.keys, table.Typed key.name key.type) ∧
      (∀ key ∈ (table.bindingOf o).keys, table.Typed key.name key.type) ∧
      ∀ argument ∈ (o.toField table.baseName).arguments, argument.name ≠ "input" →
        table.Typed argument.name argument.type ∧
        ∀ d ∈ types, ∀ field ∈ d.fields, field.name = argument.name → field.type = argument.type := by
  obtain ⟨table, ht, hkeys⟩ :=
    Except.exists_ok_of_decide (x := Table.ofDeclaration (builtEvents .sort .partition) none)
      (p := fun table => (table.plan.map fun o => (o.name, o.keys.map fun key => (key.name, key.type.render))) =
        [("getEventByPlaceAndTime", [("place", "ID!"), ("time", "Int!")]), ("listEventByPlace", [("place", "ID!")]),
          ("listEventByTitle", [("title", "String")]),
          ("getEventByTitleAndRating", [("title", "String"), ("rating", "[Int]")]),
          ("getEventByPlaceAndRating", [("place", "ID!"), ("rating", "[Int]")]),
          ("putEvent", [("place", "ID!"), ("time", "Int!")]), ("deleteEvent", [("place", "ID!"), ("time", "Int!")])])
      (by decide +kernel)
  exact ⟨table, ht, hkeys, Table.arguments_typed ht (by decide)⟩

end TableApi
