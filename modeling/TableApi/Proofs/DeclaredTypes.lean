import TableApi.Proofs.Composition
import TableApi.Proofs.LegalNames
import TableApi.Proofs.TypeGrammar

/-! Which types that are declared beside the tables can be registered, and what is registered of them. Each
declaration is checked by itself, and beside that two whose names have one key have to be of one category. -/
namespace TableApi

/-- The fields that are declared, unless names are. -/
def TypeShape.fields? : TypeShape → Option Attributes
  | members _ => none
  | definition fields _ | plain fields => some fields

def TypeShape.interfaces : TypeShape → List String
  | definition _ interfaces => interfaces
  | members _ | plain _ => []

/-- The interfaces and the body of the type that is declared by a shape in a category. Only objects implement
interfaces. -/
inductive Shapes : TypeCategory → TypeShape → List String → TypeBody → Prop
  | enum (values : List String) : Shapes .enum (.members values) [] (.enum values)
  | union (members : List String) : Shapes .union (.members members) [] (.union members)
  | object {shape : TypeShape} {attributes : Attributes} {fields : List FieldDefinition} :
      shape.fields? = some attributes → Declares attributes.entries fields →
      Shapes .type shape shape.interfaces (.object fields)
  | interface {shape : TypeShape} {attributes : Attributes} {fields : List FieldDefinition} :
      shape.fields? = some attributes → Declares attributes.entries fields →
      Shapes .interface shape [] (.interface fields)
  | input {shape : TypeShape} {attributes : Attributes} {fields : List FieldDefinition} :
      shape.fields? = some attributes → Declares attributes.entries fields →
      Shapes .input shape [] (.input fields)

/-- The type has the name, the interfaces and the body that are declared. -/
structure Stands (declaration : TypeCategory × String × TypeShape) (d : TypeDefinition) : Prop where
  name : d.name = TypeDefinition.strippedName declaration.2.1
  body : Shapes declaration.1 declaration.2.2 d.interfaces d.body

theorem Stands.category {declaration : TypeCategory × String × TypeShape} {d : TypeDefinition}
    (h : Stands declaration d) : d.category = declaration.1 := by
  obtain ⟨category, name, shape⟩ := declaration
  obtain ⟨name, interfaces, body⟩ := d
  cases h.body <;> rfl

/-- Nothing is wrong with a declaration by itself. Arrays are for enums and unions, and only for them. -/
structure TypeShape.Sound (category : TypeCategory) (name : String) (shape : TypeShape) : Prop where
  array : (∃ names, shape = .members names) ↔ category = .enum ∨ category = .union
  legal : isLegalName (TypeDefinition.strippedName name)
  values : category = .enum → ∀ values, shape = .members values → ∀ value ∈ values, isLegalName value
  fieldTypes : ∀ attributes, shape.fields? = some attributes →
    ∀ entry ∈ attributes.entries, TypeRef.Grammatical entry.2

namespace TypeDefinition

variable {text : String} {body : TypeBody} {interfaces : List String} {d : TypeDefinition}

theorem make_ok_iff :
    make text body interfaces = .ok d ↔ d = ⟨strippedName text, interfaces, body⟩ ∧ d.Named := by
  refine ⟨fun h => ⟨make_ok h, make_named h⟩, ?_⟩
  rintro ⟨rfl, hnamed⟩
  have husable : usableName text = .ok (strippedName text) := if_pos hnamed.name
  refine Except.bind_ok_iff.2 ⟨_, husable, ?_⟩
  cases body with
  | enum values =>
    have hnone : values.find? (!isLegalName ·) = none := by
      rw [List.find?_eq_none]
      intro value hv
      simpa using hnamed.values value hv
    dsimp only
    rw [hnone]
    rfl
  | _ => rfl

end TypeDefinition

theorem exists_declares_iff {entries : List (String × String)} :
    (∃ fields, Declares entries fields) ↔ ∀ entry ∈ entries, TypeRef.Grammatical entry.2 := by
  constructor
  · rintro ⟨fields, h⟩ entry he
    obtain ⟨field, _, _, _, htype⟩ := forall₂_exists_right h he
    exact TypeRef.grammatical_iff.2 ⟨field.type, htype⟩
  · intro h
    induction entries with
    | nil => exact ⟨[], .nil⟩
    | cons entry entries ih =>
      rw [List.forall_mem_cons] at h
      obtain ⟨type, htype⟩ := TypeRef.grammatical_iff.1 h.1
      obtain ⟨fields, hfields⟩ := ih h.2
      exact ⟨⟨entry.1, [], type⟩ :: fields, .cons ⟨rfl, rfl, htype⟩ hfields⟩

namespace AuxiliaryTypes

variable {category : TypeCategory} {name : String} {shape : TypeShape} {d : TypeDefinition}

theorem define_ok_iff : define category name shape = .ok d ↔ Stands (category, name, shape) d ∧ d.Named := by
  constructor
  · intro h
    refine ⟨?_, define_named h⟩
    unfold define at h
    split at h
    · rw [TypeDefinition.make_ok h]
      exact ⟨rfl, .enum _⟩
    · rw [TypeDefinition.make_ok h]
      exact ⟨rfl, .union _⟩
    · cases h
    · cases h
    · cases h
    all_goals
      obtain ⟨fields, hfields, h⟩ := Except.bind_ok_iff.1 h
      rw [TypeDefinition.make_ok h]
      have hdeclares := FieldDefinition.ofAttributes_ok_iff.1 hfields
    · exact ⟨rfl, .object rfl hdeclares⟩
    · exact ⟨rfl, .object rfl hdeclares⟩
    · exact ⟨rfl, .input rfl hdeclares⟩
    · exact ⟨rfl, .input rfl hdeclares⟩
    · exact ⟨rfl, .interface rfl hdeclares⟩
    · exact ⟨rfl, .interface rfl hdeclares⟩
  · rintro ⟨hstands, hnamed⟩
    obtain ⟨dname, interfaces, body⟩ := d
    obtain ⟨rfl, hbody⟩ := hstands
    have hmade := TypeDefinition.make_ok_iff.2 ⟨rfl, hnamed⟩
    cases hbody with
    | enum | union => exact hmade
    | object hfields hdeclares | interface hfields hdeclares | input hfields hdeclares =>
      cases shape with
      | members => cases hfields
      | definition | plain =>
        obtain rfl := Option.some.inj hfields
        exact Except.bind_ok_iff.2 ⟨_, FieldDefinition.ofAttributes_ok_iff.2 hdeclares, hmade⟩

theorem sound_of_fields {attributes : Attributes} {fields : List FieldDefinition}
    (hc : category ≠ .enum ∧ category ≠ .union) (hlegal : isLegalName (TypeDefinition.strippedName name))
    (hshape : shape.fields? = some attributes) (hfields : Declares attributes.entries fields) :
    shape.Sound category name where
  array := by
    refine iff_of_false ?_ (not_or.2 hc)
    rintro ⟨_, rfl⟩
    cases hshape
  legal := hlegal
  values henum := absurd henum hc.1
  fieldTypes other hother := by
    obtain rfl := Option.some.inj (hshape.symm.trans hother)
    exact exists_declares_iff.1 ⟨fields, hfields⟩

/-- What is declared without fault has a body, and the values of an enum are legal. -/
theorem exists_shapes_of_sound (h : shape.Sound category name) : ∃ interfaces body,
    Shapes category shape interfaces body ∧ ∀ values, body = .enum values → ∀ value ∈ values, isLegalName value := by
  by_cases hc : category = .enum ∨ category = .union
  · obtain ⟨names, rfl⟩ := h.array.2 hc
    rcases hc with rfl | rfl
    · refine ⟨_, _, .enum names, ?_⟩
      rintro _ ⟨⟩
      exact h.values rfl names rfl
    · exact ⟨_, _, .union names, fun _ henum => by cases henum⟩
  · have hshape : ∃ attributes, shape.fields? = some attributes := by
      cases shape with
      | members names => exact absurd (h.array.1 ⟨names, rfl⟩) hc
      | definition attributes _ | plain attributes => exact ⟨attributes, rfl⟩
    obtain ⟨attributes, hshape⟩ := hshape
    obtain ⟨fields, hfields⟩ := exists_declares_iff.2 (h.fieldTypes attributes hshape)
    cases category with
    | enum | union => simp at hc
    | type => exact ⟨_, _, .object hshape hfields, fun _ henum => by cases henum⟩
    | interface => exact ⟨_, _, .interface hshape hfields, fun _ henum => by cases henum⟩
    | input => exact ⟨_, _, .input hshape hfields, fun _ henum => by cases henum⟩

theorem exists_define_iff : (∃ d, define category name shape = .ok d) ↔ shape.Sound category name := by
  simp only [define_ok_iff]
  constructor
  · rintro ⟨⟨_, interfaces, body⟩, ⟨rfl, hbody⟩, hnamed⟩
    cases hbody with
    | enum values =>
      refine ⟨by simp, hnamed.name, ?_, by simp [TypeShape.fields?]⟩
      rintro _ _ ⟨⟩
      exact hnamed.values
    | union => exact ⟨by simp, hnamed.name, by simp, by simp [TypeShape.fields?]⟩
    | object hshape hfields | interface hshape hfields | input hshape hfields =>
      exact sound_of_fields (by simp) hnamed.name hshape hfields
  · intro h
    obtain ⟨interfaces, body, hbody, hvalues⟩ := exists_shapes_of_sound h
    refine ⟨⟨_, interfaces, body⟩, ⟨rfl, hbody⟩, h.legal, ?_⟩
    cases body with
    | enum values => exact hvalues values rfl
    | _ => exact fun value hv => absurd hv List.not_mem_nil

end AuxiliaryTypes

namespace Registry

variable {registry : Registry} {made types : List TypeDefinition} {d : TypeDefinition}
  {added : List (RootType × FieldDefinition)}

/-- What was made under its key before tells whether a definition can be registered. -/
theorem Filled.exists_register_iff (h : registry.Filled made added) :
    (∃ result, registry.register d = .ok result) ↔ Scalar.ofName? d.name = none ∧
      ∀ e ∈ made, lookupKey e.name = lookupKey d.name → e.category = d.category := by
  constructor
  · rintro ⟨⟨result, after⟩, hr⟩
    refine ⟨(register_ok_iff.1 hr).1, fun e he hk => ?_⟩
    obtain ⟨held, hget, hc⟩ := h.held e he
    obtain ⟨_, ⟨hnone, _⟩ | ⟨hsome, hcategory, _⟩⟩ := register_ok_iff.1 hr
    · rw [get?_congr hk, hnone] at hget
      cases hget
    · rw [get?_congr hk, hsome] at hget
      exact hc.symm.trans (Option.some.inj hget ▸ hcategory)
  · rintro ⟨hscalar, hcategory⟩
    cases hget : registry.get? d.name with
    | none => exact ⟨_, register_ok_iff.2 ⟨hscalar, .inl ⟨hget, rfl, rfl⟩⟩⟩
    | some e =>
      have hfound : registry.get? d.name = _ := h.get?_eq
      rw [hget, eq_comm, Option.map_eq_some_iff] at hfound
      obtain ⟨first, hfirst, rfl⟩ := hfound
      have hkey : lookupKey first.name = lookupKey d.name := by simpa using List.find?_some hfirst
      have hsame := hcategory first (List.mem_of_find?_eq_some hfirst) hkey
      exact ⟨(first.grown added, registry), register_ok_iff.2
        ⟨hscalar, .inr ⟨hget, TypeDefinition.grown_category.trans hsame, rfl⟩⟩⟩

/-- Definitions of which any two under one key are of one category. -/
def Agree (types : List TypeDefinition) : Prop :=
  ∀ d ∈ types, ∀ e ∈ types, lookupKey d.name = lookupKey e.name → d.category = e.category

theorem agree_concat_iff : Agree (types ++ [d]) ↔
    Agree types ∧ ∀ e ∈ types, lookupKey e.name = lookupKey d.name → e.category = d.category := by
  simp only [Agree, List.forall_mem_append, List.forall_mem_singleton]
  constructor
  · rintro ⟨h, _⟩
    exact ⟨fun a ha => (h a ha).1, fun e he => (h e he).2⟩
  · rintro ⟨h, hd⟩
    exact ⟨fun a ha => ⟨h a ha, hd a ha⟩, fun e he hk => (hd e he hk.symm).symm, fun _ => trivial⟩

/-- Definitions can be registered one after another if they agree with all that was made before and with each other. -/
theorem Filled.exists_registers_iff (h : registry.Filled made added) (hmade : Agree made) :
    (∃ after, Registers registry types after) ↔
      (∀ d ∈ types, Scalar.ofName? d.name = none) ∧ Agree (made ++ types) := by
  induction types generalizing registry made with
  | nil => simpa using hmade
  | cons d types ih =>
    have hstep : (∃ after, Registers registry (d :: types) after) ↔
        ∃ result, registry.register d = .ok result ∧ ∃ after, Registers result.2 types after := by
      simp only [registers_cons_iff]
      constructor
      · rintro ⟨after, result, mid, hr, hrest⟩
        exact ⟨(result, mid), hr, after, hrest⟩
      · rintro ⟨⟨result, mid⟩, hr, after, hrest⟩
        exact ⟨after, result, mid, hr, hrest⟩
    rw [hstep, List.forall_mem_cons, List.append_cons]
    constructor
    · rintro ⟨⟨result, mid⟩, hr, hrest⟩
      obtain ⟨hscalar, hcategory⟩ := h.exists_register_iff.1 ⟨_, hr⟩
      have hagree := agree_concat_iff.2 ⟨hmade, hcategory⟩
      obtain ⟨hscalars, hall⟩ := (ih (h.register hr) hagree).1 hrest
      exact ⟨⟨hscalar, hscalars⟩, hall⟩
    · rintro ⟨⟨hscalar, hscalars⟩, hall⟩
      have hagree : Agree (made ++ [d]) := fun a ha b hb =>
        hall a (List.mem_append_left _ ha) b (List.mem_append_left _ hb)
      obtain ⟨⟨result, mid⟩, hr⟩ := h.exists_register_iff.2 ⟨hscalar, (agree_concat_iff.1 hagree).2⟩
      exact ⟨_, hr, (ih (h.register hr) hagree).2 ⟨hscalars, hall⟩⟩

end Registry

namespace AuxiliaryTypes

variable {aux : AuxiliaryTypes} {category : TypeCategory} {name : String} {shape : TypeShape} {s : Schema} {v : Unit}

def ofCategory (aux : AuxiliaryTypes) : TypeCategory → OrderedMap TypeShape
  | .type => aux.types
  | .input => aux.inputs
  | .interface => aux.interfaces
  | .union => aux.unions
  | .enum => aux.enums

def declarationsOf (aux : AuxiliaryTypes) (category : TypeCategory) : List (TypeCategory × String × TypeShape) :=
  (aux.ofCategory category).entries.map (category, ·)

/-- Each category in its turn, and in each the order of declaration. -/
theorem declarations_eq (aux : AuxiliaryTypes) :
    aux.declarations = [.enum, .union, .type, .interface, .input].flatMap aux.declarationsOf := by
  simp [declarations, declarationsOf, ofCategory]

theorem mem_declarations_iff :
    (category, name, shape) ∈ aux.declarations ↔ (name, shape) ∈ (aux.ofCategory category).entries := by
  cases category <;> simp [declarations_eq, declarationsOf]

/-- Nothing is wrong with the declarations: with none by itself, and with no two together. -/
structure Sound (aux : AuxiliaryTypes) : Prop where
  shapes : ∀ category, ∀ entry ∈ (aux.ofCategory category).entries, entry.2.Sound category entry.1
  scalars : ∀ category, ∀ entry ∈ (aux.ofCategory category).entries,
    Scalar.ofName? (TypeDefinition.strippedName entry.1) = none
  categories : ∀ category, ∀ entry ∈ (aux.ofCategory category).entries,
    ∀ other, ∀ second ∈ (aux.ofCategory other).entries,
      lookupKey (TypeDefinition.strippedName entry.1) = lookupKey (TypeDefinition.strippedName second.1) →
        category = other

theorem forall_declarations_iff {p : TypeCategory × String × TypeShape → Prop} :
    (∀ declaration ∈ aux.declarations, p declaration) ↔
      ∀ category, ∀ entry ∈ (aux.ofCategory category).entries, p (category, entry) := by
  constructor
  · rintro h category ⟨name, shape⟩ he
    exact h _ (mem_declarations_iff.2 he)
  · rintro h ⟨category, name, shape⟩ hd
    exact h category (name, shape) (mem_declarations_iff.1 hd)

theorem stands_of_definitions {types : List TypeDefinition} (h : aux.definitions = .ok types) :
    List.Forall₂ Stands aux.declarations types :=
  (Except.mapM_ok_iff.1 h).imp fun _ _ hd => (define_ok_iff.1 hd).1

/-- What the definitions are asked together is asked of the names and categories of the declarations. -/
theorem agree_iff {types : List TypeDefinition} (h : List.Forall₂ Stands aux.declarations types) :
    ((∀ d ∈ types, Scalar.ofName? d.name = none) ∧ Registry.Agree types) ↔
      (∀ category, ∀ entry ∈ (aux.ofCategory category).entries,
        Scalar.ofName? (TypeDefinition.strippedName entry.1) = none) ∧
      ∀ category, ∀ entry ∈ (aux.ofCategory category).entries,
        ∀ other, ∀ second ∈ (aux.ofCategory other).entries,
          lookupKey (TypeDefinition.strippedName entry.1) = lookupKey (TypeDefinition.strippedName second.1) →
            category = other := by
  refine and_congr ?_ ?_
  · rw [← forall₂_forall_mem_iff h (p := fun declaration =>
      Scalar.ofName? (TypeDefinition.strippedName declaration.2.1) = none) fun declaration d hd => by rw [hd.name],
      forall_declarations_iff]
  · rw [Registry.Agree, ← forall₂_forall_mem_iff h (p := fun declaration => ∀ category,
      ∀ entry ∈ (aux.ofCategory category).entries, lookupKey (TypeDefinition.strippedName declaration.2.1) =
        lookupKey (TypeDefinition.strippedName entry.1) → declaration.1 = category), forall_declarations_iff]
    intro declaration d hd
    rw [← forall₂_forall_mem_iff h (p := fun second => lookupKey (TypeDefinition.strippedName declaration.2.1) =
      lookupKey (TypeDefinition.strippedName second.2.1) → declaration.1 = second.1) fun second e he => by
        rw [hd.name, hd.category, he.name, he.category], forall_declarations_iff]

theorem exists_register_iff : (∃ s, Gives aux.register .empty ⟨⟩ s) ↔ aux.Sound := by
  have hregister : (∃ s, Gives aux.register .empty ⟨⟩ s) ↔ ∃ types, aux.definitions = .ok types ∧
      ∃ r, Registry.Registers .empty types r := by
    simp only [gives_register]
    constructor
    · rintro ⟨_, types, r, htypes, hr, rfl⟩
      exact ⟨types, htypes, r, hr⟩
    · rintro ⟨types, htypes, r, hr⟩
      exact ⟨_, types, r, htypes, hr, rfl⟩
  have hshapes : (∃ types, aux.definitions = .ok types) ↔
      ∀ category, ∀ entry ∈ (aux.ofCategory category).entries, entry.2.Sound category entry.1 := by
    simp only [definitions, Except.exists_mapM_ok_iff, forall_declarations_iff, exists_define_iff]
  have hagree : Registry.Agree [] := fun d hd => absurd hd List.not_mem_nil
  rw [hregister]
  constructor
  · rintro ⟨types, htypes, hr⟩
    obtain ⟨hscalars, hcategories⟩ := (agree_iff (stands_of_definitions htypes)).1
      ((Registry.filled_empty.exists_registers_iff hagree).1 hr)
    exact ⟨hshapes.1 ⟨types, htypes⟩, hscalars, hcategories⟩
  · intro h
    obtain ⟨types, htypes⟩ := hshapes.2 h.shapes
    have hall := (agree_iff (stands_of_definitions htypes)).2 ⟨h.scalars, h.categories⟩
    exact ⟨types, htypes, (Registry.filled_empty.exists_registers_iff hagree).2 hall⟩

/-- Declarations can be registered on their own exactly if nothing is wrong with them. Enums come first, then unions,
objects, interfaces and inputs, each as declared, and of those whose names have one key only the first. -/
theorem register_iff_sound (aux : AuxiliaryTypes) :
    ((∃ s, Gives aux.register .empty ⟨⟩ s) ↔ aux.Sound) ∧
    ∀ s, Gives aux.register .empty ⟨⟩ s → ∃ types,
      List.Forall₂ Stands ([.enum, .union, .type, .interface, .input].flatMap aux.declarationsOf) types ∧
      s.registry.definitions = firstByName (lookupKey ·.name) types := by
  refine ⟨exists_register_iff, fun s hs => ?_⟩
  obtain ⟨types, r, htypes, hr, rfl⟩ := gives_register.1 hs
  have hdefinitions := (Registry.filled_empty.registers hr).definitions
  rw [List.nil_append] at hdefinitions
  have hown : ∀ d ∈ firstByName (lookupKey ·.name) types, d.grown [] = d :=
    fun d _ => TypeDefinition.grown_of_key (by simp)
  refine ⟨types, aux.declarations_eq ▸ stands_of_definitions htypes, ?_⟩
  exact hdefinitions.trans ((List.map_congr_left hown).trans (List.map_id _))

/-- Dogs are declared twice, and cats under a name of which something has to be taken off. -/
def dogsTwice : AuxiliaryTypes where
  types := .ofList [("Dog", .plain (.ofList [("name", "[String!]")])), ("DOG", .plain (.ofList [("age", "Int")])),
    (" Cat!", .definition (.ofList [("friends", " [ Dog ] ")]) ["Named"])]
  inputs := .ofList [("DogInput", .plain (.ofList [("size", "Size")]))]
  interfaces := .ofList [("Named", .plain (.ofList [("name", "String")]))]
  unions := .ofList [("Pet", .members ["Dog", "Cat", "Snake"])]
  enums := .ofList [("Size", .members ["SMALL", "BIG"])]

theorem dogsTwice_registered : dogsTwice.Sound ∧ ∃ s types, Gives dogsTwice.register .empty ⟨⟩ s ∧
    List.Forall₂ Stands ([.enum, .union, .type, .interface, .input].flatMap dogsTwice.declarationsOf) types ∧
    s.registry.definitions = firstByName (lookupKey ·.name) types ∧
    s.registry.definitions.map TypeDefinition.name = ["Size", "Pet", "Dog", "Cat", "Named", "DogInput"] := by
  obtain ⟨s, hleft, hnames⟩ := Except.exists_ok_of_decide (x := left dogsTwice.register .empty)
    (p := fun s => s.registry.definitions.map TypeDefinition.name =
      ["Size", "Pet", "Dog", "Cat", "Named", "DogInput"]) (by decide +kernel)
  obtain ⟨_, hs⟩ := left_ok_iff.1 hleft
  obtain ⟨hsound, hregistered⟩ := register_iff_sound dogsTwice
  obtain ⟨types, hstands, hdefinitions⟩ := hregistered s hs
  exact ⟨hsound.1 ⟨s, hs⟩, s, types, hs, hstands, hdefinitions, hnames⟩

end AuxiliaryTypes

end TableApi
