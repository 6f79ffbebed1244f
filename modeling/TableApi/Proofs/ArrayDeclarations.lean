import TableApi.Proofs.Layering

/-! Arrays that are given where a type is declared by its fields. Registration takes arrays of names for enums and
unions only. But a record may be given as an array of its members, and a definition is read as a record, so that an
array which lists the members of a definition is one before registration can refuse it. -/
namespace TableApi

/-- The items are the members of a definition in their order: the fields, and maybe the interfaces. -/
inductive ListsDefinition : List Json → Attributes → List String → Prop
  | fields {value : Json} {attributes : Attributes} :
      value.map? Json.string? = some attributes → ListsDefinition [value] attributes []
  | interfaces {value names : Json} {attributes : Attributes} {interfaces : List String} :
      value.map? Json.string? = some attributes → names.list? Json.string? = some interfaces →
      ListsDefinition [value, names] attributes interfaces

/-- An array lists one definition at most. -/
theorem ListsDefinition.unique {items : List Json} {a b : Attributes} {xs ys : List String}
    (h : ListsDefinition items a xs) (g : ListsDefinition items b ys) : a = b ∧ xs = ys := by
  cases h with
  | fields hfields =>
    cases g with
    | fields gfields => exact ⟨Option.some.inj (hfields.symm.trans gfields), rfl⟩
  | interfaces hfields hnames =>
    cases g with
    | interfaces gfields gnames =>
      exact ⟨Option.some.inj (hfields.symm.trans gfields), Option.some.inj (hnames.symm.trans gnames)⟩

theorem Option.forall₂_of_mapM {α β : Type} {f : α → Option β} {xs : List α} {ys : List β}
    (h : xs.mapM f = some ys) : List.Forall₂ (fun x y => f x = some y) xs ys := by
  induction xs generalizing ys with
  | nil =>
    obtain rfl : [] = ys := by simpa using h
    exact .nil
  | cons x xs ih =>
    simp only [List.mapM_cons, Option.bind_eq_bind, Option.bind_eq_some_iff, Option.pure_def, Option.some.injEq] at h
    obtain ⟨y, hy, rest, hrest, rfl⟩ := h
    exact .cons hy (ih hrest)

theorem forall₂_getElem? {α β : Type} {r : α → β → Prop} {xs : List α} {ys : List β} {place : Nat} {x : α}
    (h : List.Forall₂ r xs ys) (hx : xs[place]? = some x) : ∃ y, ys[place]? = some y ∧ r x y := by
  induction h generalizing place with
  | nil => simp at hx
  | cons hxy _ ih =>
    cases place with
    | zero =>
      obtain rfl := Option.some.inj hx
      exact ⟨_, rfl, hxy⟩
    | succ place => exact ih hx

namespace Json

variable {α : Type} {read : Json → Option α} {document value : Json} {items : List Json}
  {members : List (String × Json)} {map : OrderedMap α} {name : String} {place : Nat}

/-- The value is given in a document: as the member of a name, or where the document is an array as the item at a
place. -/
inductive Member (name : String) (place : Nat) : Json → Json → Prop
  | named {members : List (String × Json)} {value : Json} :
      (name, value) ∈ members → Member name place (.object members) value
  | placed {items : List Json} {value : Json} : items[place]? = some value → Member name place (.array items) value

theorem slots_member {spellings : List (List String)} {values : List (Option Json)}
    (h : document.slots spellings = some values) (hname : spellings[place]? = some [name])
    (hm : Member name place document value) : values[place]? = some (some value) := by
  cases hm with
  | @named members _ hmem =>
    obtain ⟨found, hfound, hone⟩ := forall₂_getElem? (Option.forall₂_of_mapM h) hname
    have hin : (name, value) ∈ members.filter ([name].contains ·.1) := List.mem_filter.2 ⟨hmem, by simp⟩
    rw [hfound]
    -- A member that is given twice is refused, so the one that is taken is the only one.
    split at hone
    · next hnil =>
      rw [hnil] at hin
      cases hin
    · next member hsingle =>
      rw [hsingle, List.mem_singleton] at hin
      rw [← Option.some.inj hone, ← hin]
    · cases hone
  | @placed items _ hitem =>
    rw [slots] at h
    split at h
    · obtain rfl := Option.some.inj h
      have hlt : place < (items.map some).length := by
        rw [List.length_map]
        exact (List.getElem?_eq_some_iff.1 hitem).1
      rw [List.getElem?_append_left hlt, List.getElem?_map, hitem, Option.map_some]
    · cases h

theorem string?_eq_some_iff {text : String} : value.string? = some text ↔ value = .string text := by
  cases value <;> simp [string?]

theorem list?_string?_eq_some_iff {names : List String} :
    (Json.array items).list? string? = some names ↔ items = names.map .string := by
  constructor
  · intro h
    have hall := Option.forall₂_of_mapM h
    clear h
    induction hall with
    | nil => rfl
    | cons hitem _ ih => rw [string?_eq_some_iff.1 hitem, ih, List.map_cons]
  · rintro rfl
    exact list?_ofStrings names

theorem lookup_of_forall₂ {entries : List (String × α)}
    (h : List.Forall₂ (fun member entry => (read member.2).map (member.1, ·) = some entry) members entries)
    (hlookup : members.lookup name = some value) : ∃ a, read value = some a ∧ entries.lookup name = some a := by
  induction h with
  | nil => cases hlookup
  | @cons member _ _ _ hentry _ ih =>
    obtain ⟨first, given⟩ := member
    obtain ⟨a, hread, rfl⟩ := Option.map_eq_some_iff.1 hentry
    by_cases hname : name = first
    · obtain rfl : given = value := by simpa [List.lookup_cons, hname] using hlookup
      exact ⟨a, hread, by simp [hname]⟩
    · simp only [List.lookup_cons, beq_eq_false_iff_ne.2 hname] at hlookup ⊢
      exact ih hlookup

/-- Of what an object says of a name the last counts. -/
theorem get?_of_map? (h : (Json.object members).map? read = some map)
    (hlookup : members.reverse.lookup name = some value) : ∃ a, read value = some a ∧ map.get? name = some a := by
  obtain ⟨entries, hentries, rfl⟩ := Option.map_eq_some_iff.1 h
  have hall := List.forall₂_reverse_iff.2 (Option.forall₂_of_mapM hentries)
  obtain ⟨a, hread, ha⟩ := lookup_of_forall₂ hall hlookup
  refine ⟨a, hread, ?_⟩
  rw [OrderedMap.ofList, OrderedMap.get?_extend, ha]
  rfl

end Json

/-- Under which member of a document the types of a category are declared. -/
def TypeCategory.member : TypeCategory → String
  | .type => "types"
  | .input => "inputs"
  | .interface => "interfaces"
  | .union => "unions"
  | .enum => "enums"

/-- Its place in a document that is an array. -/
def TypeCategory.place : TypeCategory → Nat
  | .type => 0
  | .input => 1
  | .interface => 2
  | .union => 3
  | .enum => 4

/-- The value is what a document of types gives for a name in a category: the last of the values that are given
for it. -/
def Json.Declares (document : Json) (category : TypeCategory) (name : String) (value : Json) : Prop :=
  ∃ members, document.Member category.member category.place (.object members) ∧
    members.reverse.lookup name = some value

/-- A document that declares types, alone or with the rest of a configuration. -/
inductive TypesDocument where
  | types (document : Json)
  | config (document : Json)

namespace TypesDocument

/-- The types that are read from the document. -/
def read? : TypesDocument → Option AuxiliaryTypes
  | types document => AuxiliaryTypes.ofJson? document
  | config document => (Config.ofJson? document).map Config.types

def Declares (category : TypeCategory) (name : String) (value : Json) : TypesDocument → Prop
  | types document => document.Declares category name value
  | config document => ∃ types, document.Member "types" 1 types ∧ types.Declares category name value

end TypesDocument

theorem AuxiliaryTypes.section_of_ofJson? {aux : AuxiliaryTypes} {document value : Json} {category : TypeCategory}
    (h : ofJson? document = some aux) (hm : document.Member category.member category.place value) :
    value.map? TypeShape.ofJson? = some (aux.ofCategory category) := by
  rw [ofJson?] at h
  split at h
  · next types inputs interfaces unions enums hslots =>
    simp only [Option.bind_eq_bind, Option.bind_eq_some_iff, Option.pure_def, Option.some.injEq] at h
    obtain ⟨_, htypes, _, hinputs, _, hinterfaces, _, hunions, _, henums, rfl⟩ := h
    cases category <;> obtain rfl := Option.some.inj (Json.slots_member hslots rfl hm)
    · exact htypes
    · exact hinputs
    · exact hinterfaces
    · exact hunions
    · exact henums
  · cases h

theorem Config.types_of_ofJson? {config : Config} {document value : Json} (h : ofJson? document = some config)
    (hm : document.Member "types" 1 value) : AuxiliaryTypes.ofJson? value = some config.types := by
  rw [ofJson?] at h
  split at h
  · next hslots =>
    simp only [Option.bind_eq_bind, Option.bind_eq_some_iff, Option.pure_def, Option.some.injEq] at h
    obtain ⟨_, _, _, htypes, _, _, _, _, _, _, _, _, _, _, _, _, _, _, rfl⟩ := h
    obtain rfl := Option.some.inj (Json.slots_member hslots rfl hm)
    exact htypes
  · cases h

namespace TypeShape

variable {items : List Json} {shape : TypeShape} {attributes : Attributes} {interfaces : List String}

theorem definition?_array (h : definition? (.array items) = some shape) :
    ∃ attributes interfaces, ListsDefinition items attributes interfaces ∧
      shape = .definition attributes interfaces := by
  match items with
  | [] => cases h
  | [value] =>
    obtain ⟨attributes, hfields, h⟩ := Option.bind_eq_some_iff.1 h
    exact ⟨attributes, [], .fields hfields, (Option.some.inj h).symm⟩
  | [value, names] =>
    obtain ⟨attributes, hfields, h⟩ := Option.bind_eq_some_iff.1 h
    obtain ⟨interfaces, hinterfaces, h⟩ := Option.bind_eq_some_iff.1 h
    exact ⟨attributes, interfaces, .interfaces hfields hinterfaces, (Option.some.inj h).symm⟩
  | _ :: _ :: _ :: rest =>
    have hlong : ¬ (rest.length + 1 + 1 + 1 ≤ 2) := by omega
    simp [definition?, Json.slots, hlong] at h

/-- An array is read as names or as a definition, and never as a map of fields. -/
theorem ofJson?_array (h : ofJson? (.array items) = some shape) :
    (∃ names, items = names.map .string ∧ shape = .members names) ∨
      ∃ attributes interfaces, ListsDefinition items attributes interfaces ∧
        shape = .definition attributes interfaces := by
  unfold ofJson? Json.keeping at h
  split at h
  · dsimp only at h
    cases hnames : (Json.array items).list? Json.string? with
    | some names =>
      rw [hnames] at h
      exact .inl ⟨names, Json.list?_string?_eq_some_iff.1 hnames, (Option.some.inj h).symm⟩
    | none =>
      rw [hnames] at h
      have hplain : (Json.array items).map? Json.string? = none := rfl
      simp only [hplain, Option.map_none, Option.orElse_eq_orElse, Option.orElse_eq_or, Option.none_or,
        Option.or_none] at h
      exact .inr (definition?_array h)
  · cases h

theorem not_listsDefinition_strings {names : List String} :
    ¬ ListsDefinition (names.map .string) attributes interfaces := by
  generalize hitems : names.map Json.string = items
  rintro (hfields | ⟨hfields, _⟩)
  all_goals
    obtain ⟨name, _, rfl⟩ := List.mem_map.1 (hitems ▸ List.mem_cons_self)
    cases hfields

end TypeShape

namespace AuxiliaryTypes

variable {aux : AuxiliaryTypes} {category : TypeCategory} {name : String} {names : List String}
  {before after : List (TypeCategory × String × TypeShape)} {s t : Schema}

/-- Registers declarations one after another. -/
def registerAll (declarations : List (TypeCategory × String × TypeShape)) : Updating Schema Unit :=
  declarations.forM fun (category, name, shape) => do
    let _ ← registerOne category name shape

/-- Registration fails at an array of names, which is declared for a name in the category, if not before. -/
def RefusesArray (aux : AuxiliaryTypes) (category : TypeCategory) (name : String) : Prop :=
  ∃ before names after, aux.declarations = before ++ (category, name, .members names) :: after ∧
    ∀ s, ∃ e t, outcome aux.register s = (.error e, t) ∧
      (outcome (registerAll before) s = (.error e, t) ∨
        Gives (registerAll before) s ⟨⟩ t ∧ e = .shapeIsArray category)

theorem registerAll_append : registerAll (before ++ after) = (registerAll before >>= fun _ => registerAll after) :=
  List.forM_append

theorem outcome_registerAll_members (hc : category ≠ .enum ∧ category ≠ .union) :
    outcome (registerAll ((category, name, .members names) :: after)) s = (.error (.shapeIsArray category), s) := by
  have hone : registerOne category name (.members names) = throw (.shapeIsArray category) := by
    cases category with
    | enum | union => simp at hc
    | _ => rfl
  change outcome ((registerOne category name (.members names) >>= fun _ => pure ()) >>= fun _ =>
    registerAll after) s = _
  rw [hone]
  rfl

theorem refusesArray_of_get? (hc : category ≠ .enum ∧ category ≠ .union)
    (h : (aux.ofCategory category).get? name = some (.members names)) : aux.RefusesArray category name := by
  obtain ⟨before, after, hsplit⟩ :=
    List.append_of_mem (mem_declarations_iff.2 (OrderedMap.get?_eq_some_iff.1 h))
  refine ⟨before, names, after, hsplit, fun s => ?_⟩
  have hall : outcome aux.register s = _ := congrArg (fun declarations => outcome (registerAll declarations) s) hsplit
  rw [registerAll_append, outcome_bind] at hall
  rcases hbefore : outcome (registerAll before) s with ⟨e | v, t⟩
  · rw [hbefore] at hall
    exact ⟨e, t, hall, .inl rfl⟩
  · rw [hbefore] at hall
    exact ⟨_, t, hall.trans (outcome_registerAll_members hc), .inr ⟨hbefore, rfl⟩⟩

theorem RefusesArray.get? (h : aux.RefusesArray category name) :
    ∃ names, (aux.ofCategory category).get? name = some (.members names) := by
  obtain ⟨before, names, after, hsplit, _⟩ := h
  have hmem : (category, name, .members names) ∈ aux.declarations := by
    rw [hsplit]
    exact List.mem_append_right _ List.mem_cons_self
  exact ⟨names, OrderedMap.get?_eq_some_iff.2 (mem_declarations_iff.1 hmem)⟩

end AuxiliaryTypes

/-- What a document gives for a name is read as a shape, and stands under that name. -/
theorem TypesDocument.exists_shape {document : TypesDocument} {aux : AuxiliaryTypes} {category : TypeCategory}
    {name : String} {value : Json} (hread : document.read? = some aux) (h : document.Declares category name value) :
    ∃ shape, TypeShape.ofJson? value = some shape ∧ (aux.ofCategory category).get? name = some shape := by
  have hget : ∀ {document : Json}, AuxiliaryTypes.ofJson? document = some aux →
      document.Declares category name value →
      ∃ shape, TypeShape.ofJson? value = some shape ∧ (aux.ofCategory category).get? name = some shape := by
    rintro document haux ⟨members, hmember, hlookup⟩
    exact Json.get?_of_map? (AuxiliaryTypes.section_of_ofJson? haux hmember) hlookup
  cases document with
  | types document => exact hget hread h
  | config document =>
    obtain ⟨config, hconfig, rfl⟩ := Option.map_eq_some_iff.1 hread
    obtain ⟨types, hmember, hdeclares⟩ := h
    exact hget (Config.types_of_ofJson? hconfig hmember) hdeclares

namespace TypesDocument

/-- An array that is given for a name in a category with fields: if the document is read at all, either its items are
strings, and registration is refused for it, or they list a definition, which is then what is declared. -/
theorem array_refused_iff {document : TypesDocument} {aux : AuxiliaryTypes} {category : TypeCategory} {name : String}
    {items : List Json} (hc : category ≠ .enum ∧ category ≠ .union) (hread : document.read? = some aux)
    (h : document.Declares category name (.array items)) :
    (aux.RefusesArray category name ↔ ∃ names : List String, items = names.map .string) ∧
      (¬ aux.RefusesArray category name ↔ ∃ attributes interfaces, ListsDefinition items attributes interfaces) ∧
      (∀ attributes interfaces, ListsDefinition items attributes interfaces →
        (aux.ofCategory category).get? name = some (.definition attributes interfaces)) ∧
      (Error.shapeIsArray category).message =
        "Validation error: Only Union and Enum types can be passed as an array, Type: " ++ category.keyword := by
  have hmessage : (Error.shapeIsArray category).message =
      "Validation error: Only Union and Enum types can be passed as an array, Type: " ++ category.keyword := by
    cases category <;> decide
  obtain ⟨shape, hshape, hget⟩ := exists_shape hread h
  rcases TypeShape.ofJson?_array hshape with ⟨names, rfl, rfl⟩ | ⟨attributes, interfaces, hlists, rfl⟩
  · have hrefused := AuxiliaryTypes.refusesArray_of_get? hc hget
    refine ⟨iff_of_true hrefused ⟨names, rfl⟩, iff_of_false (not_not_intro hrefused) ?_, ?_, hmessage⟩
    · rintro ⟨_, _, hlists⟩
      exact TypeShape.not_listsDefinition_strings hlists
    · intro _ _ hlists
      exact absurd hlists TypeShape.not_listsDefinition_strings
  · have hkept : ¬ aux.RefusesArray category name := by
      intro hrefused
      obtain ⟨_, hmembers⟩ := hrefused.get?
      cases hget.symm.trans hmembers
    refine ⟨iff_of_false hkept ?_, iff_of_true hkept ⟨_, _, hlists⟩, ?_, hmessage⟩
    · rintro ⟨names, rfl⟩
      exact TypeShape.not_listsDefinition_strings hlists
    · intro _ _ hothers
      obtain ⟨rfl, rfl⟩ := hlists.unique hothers
      exact hget

/-- Owners are declared by an array that lists a definition, their input by one with interfaces, and pets by names. -/
def petsInArrays : TypesDocument :=
  .config (.object [("types", .object [
    ("types", .object [("Owner", .array [.object [("name", .string "String")]]), ("Pet", .array [.string "Dog"])]),
    ("inputs", .object [("OwnerInput", .array [.object [("name", .string "String")], .array []])])])])

theorem petsInArrays_refused : ∃ aux, petsInArrays.read? = some aux ∧
    aux.RefusesArray .type "Pet" ∧ ¬ aux.RefusesArray .type "Owner" ∧
    aux.inputs.get? "OwnerInput" = some (.definition (.ofList [("name", "String")]) []) := by
  have hread : petsInArrays.read?.isSome := by decide +kernel
  obtain ⟨aux, hread⟩ := Option.isSome_iff_exists.1 hread
  have hpet : petsInArrays.Declares .type "Pet" (.array [.string "Dog"]) :=
    ⟨_, .named List.mem_cons_self, _, .named List.mem_cons_self, rfl⟩
  have howner : petsInArrays.Declares .type "Owner" (.array [.object [("name", .string "String")]]) :=
    ⟨_, .named List.mem_cons_self, _, .named List.mem_cons_self, rfl⟩
  have hinput : petsInArrays.Declares .input "OwnerInput"
      (.array [.object [("name", .string "String")], .array []]) :=
    ⟨_, .named List.mem_cons_self, _, .named (List.mem_cons_of_mem _ List.mem_cons_self), rfl⟩
  refine ⟨aux, hread, ?_, ?_, ?_⟩
  · exact (array_refused_iff (by decide) hread hpet).1.2 ⟨["Dog"], rfl⟩
  · exact (array_refused_iff (by decide) hread howner).2.1.2 ⟨_, [], .fields rfl⟩
  · exact (array_refused_iff (by decide) hread hinput).2.2.1 _ [] (.interfaces rfl rfl)

/-- Owners are declared by an array that lists a definition. -/
def ownersInArray : Json :=
  .object [("types", .object [("Owner", .array [.object [("name", .string "String")]])])]

/-- The array is taken as the definition, and registered. -/
theorem ownersInArray_registered : ∃ aux s, (TypesDocument.types ownersInArray).read? = some aux ∧
    (TypesDocument.types ownersInArray).Declares .type "Owner" (.array [.object [("name", .string "String")]]) ∧
    Gives aux.register .empty ⟨⟩ s ∧ s.registry.definitions.map TypeDefinition.name = ["Owner"] ∧
    ¬ aux.RefusesArray .type "Owner" := by
  have hread : ((TypesDocument.types ownersInArray).read?.any fun aux =>
      (left aux.register .empty).toOption.any fun s =>
        decide (s.registry.definitions.map TypeDefinition.name = ["Owner"])) := by decide +kernel
  obtain ⟨aux, haux, hleft⟩ := (Option.any_eq_true _ _).1 hread
  obtain ⟨s, hs, hnames⟩ := Except.exists_ok_of_decide hleft
  obtain ⟨_, hgives⟩ := left_ok_iff.1 hs
  refine ⟨aux, s, haux, ⟨_, .named List.mem_cons_self, rfl⟩, hgives, hnames, ?_⟩
  rintro ⟨_, _, _, _, hrefused⟩
  obtain ⟨e, t, herror, _⟩ := hrefused .empty
  rw [Gives, herror] at hgives
  cases hgives

end TypesDocument

end TableApi
