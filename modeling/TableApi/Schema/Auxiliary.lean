import TableApi.Schema.Basic

/-! Types that are declared beside the tables. -/
namespace TableApi

/-- A declaration: names for unions and enums, fields for the other categories. -/
inductive TypeShape where
  | members (names : List String)
  | definition (fields : Attributes) (interfaces : List String)
  | plain (fields : Attributes)
  deriving DecidableEq, Repr

namespace TypeShape

def definition? (value : Json) : Option TypeShape :=
  match value.slots [["definition"], ["interfaces", "interfaceTypes"]] with
  | some [fields, interfaces] => do
    return definition (← Json.required (Json.map? Json.string?) fields)
      (← Json.defaulted [] (Json.list? Json.string?) interfaces)
  | _ => none

/-- The forms are tried in order: an array of names, a definition, a map of fields. -/
def ofJson? : Json → Option TypeShape :=
  Json.keeping fun value =>
    (value.list? Json.string?).map members <|> definition? value <|>
      (value.map? Json.string?).map plain

end TypeShape

/-- Declarations by category. -/
structure AuxiliaryTypes where
  types : OrderedMap TypeShape
  inputs : OrderedMap TypeShape
  interfaces : OrderedMap TypeShape
  unions : OrderedMap TypeShape
  enums : OrderedMap TypeShape
  deriving DecidableEq, Repr

namespace AuxiliaryTypes

def empty : AuxiliaryTypes := ⟨.empty, .empty, .empty, .empty, .empty⟩

instance : Inhabited AuxiliaryTypes := ⟨empty⟩

def isEmpty (aux : AuxiliaryTypes) : Bool :=
  aux.types.isEmpty && aux.inputs.isEmpty && aux.interfaces.isEmpty && aux.unions.isEmpty &&
    aux.enums.isEmpty

def declare (aux : AuxiliaryTypes) (category : TypeCategory) (name : String) (shape : TypeShape) :
    AuxiliaryTypes :=
  match category with
  | .type => { aux with types := aux.types.insert name shape }
  | .input => { aux with inputs := aux.inputs.insert name shape }
  | .interface => { aux with interfaces := aux.interfaces.insert name shape }
  | .union => { aux with unions := aux.unions.insert name shape }
  | .enum => { aux with enums := aux.enums.insert name shape }

/-- Both together. Of a name in both the later declaration counts, in the place of the earlier. -/
def merge (earlier later : AuxiliaryTypes) : AuxiliaryTypes where
  types := earlier.types.extend later.types.entries
  inputs := earlier.inputs.extend later.inputs.entries
  interfaces := earlier.interfaces.extend later.interfaces.entries
  unions := earlier.unions.extend later.unions.entries
  enums := earlier.enums.extend later.enums.entries

/-- All declarations in the order of registration. -/
def declarations (aux : AuxiliaryTypes) : List (TypeCategory × String × TypeShape) :=
  aux.enums.entries.map (.enum, ·) ++ aux.unions.entries.map (.union, ·) ++
    aux.types.entries.map (.type, ·) ++ aux.interfaces.entries.map (.interface, ·) ++
    aux.inputs.entries.map (.input, ·)

def registerOne (category : TypeCategory) (name : String) (shape : TypeShape) :
    Updating Schema TypeDefinition :=
  match category, shape with
  | .enum, .members values => Schema.addEnum name values
  | .union, .members names => Schema.addUnion name names
  | .enum, _ | .union, _ => throw (.shapeNeedsArray category)
  | _, .members _ => throw (.shapeIsArray category)
  | .type, .definition fields interfaces => Schema.addObject name fields interfaces
  | .type, .plain fields => Schema.addObject name fields []
  | .input, .definition fields _ | .input, .plain fields => Schema.addInput name fields
  | .interface, .definition fields _ | .interface, .plain fields => Schema.addInterface name fields

def register (aux : AuxiliaryTypes) : Updating Schema Unit :=
  aux.declarations.forM fun (category, name, shape) => do
    let _ ← registerOne category name shape

def ofJson? (value : Json) : Option AuxiliaryTypes :=
  match value.slots [["types"], ["inputs"], ["interfaces"], ["unions"], ["enums"]] with
  | some [types, inputs, interfaces, unions, enums] => do
    return {
      types := ← Json.defaulted .empty (Json.map? TypeShape.ofJson?) types
      inputs := ← Json.defaulted .empty (Json.map? TypeShape.ofJson?) inputs
      interfaces := ← Json.defaulted .empty (Json.map? TypeShape.ofJson?) interfaces
      unions := ← Json.defaulted .empty (Json.map? TypeShape.ofJson?) unions
      enums := ← Json.defaulted .empty (Json.map? TypeShape.ofJson?) enums }
  | _ => none

end AuxiliaryTypes

end TableApi
