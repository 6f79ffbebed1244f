import TableApi.Key

/-! Type definitions of a schema, their fields and their names. -/
namespace TableApi

structure ArgumentDefinition where
  name : String
  type : TypeRef
  deriving DecidableEq, Repr

structure FieldDefinition where
  name : String
  arguments : List ArgumentDefinition
  type : TypeRef
  deriving DecidableEq, Repr

namespace ArgumentDefinition

def toJson (argument : ArgumentDefinition) : Json :=
  .object [("name", .string argument.name), ("type", .string argument.type.render)]

end ArgumentDefinition

namespace FieldDefinition

/-- Fields from names and types, in order. -/
def ofAttributes (attributes : Attributes) : Except Error (List FieldDefinition) :=
  attributes.entries.mapM fun entry => do return ⟨entry.1, [], ← Key.parseType entry.2⟩

def toJson (field : FieldDefinition) : Json :=
  .object ([("name", .string field.name)] ++
    (if field.arguments.isEmpty then []
      else [("args", .array (field.arguments.map ArgumentDefinition.toJson))]) ++
    [("type", .string field.type.render)])

end FieldDefinition

inductive TypeBody where
  | object (fields : List FieldDefinition)
  | input (fields : List FieldDefinition)
  | interface (fields : List FieldDefinition)
  | union (members : List String)
  | enum (values : List String)
  deriving DecidableEq, Repr

namespace TypeBody

def category : TypeBody → TypeCategory
  | object _ => .type
  | input _ => .input
  | interface _ => .interface
  | union _ => .union
  | enum _ => .enum

def fields : TypeBody → List FieldDefinition
  | object fields | input fields | interface fields => fields
  | union _ | enum _ => []

def toJson : TypeBody → Json
  | object fields | input fields | interface fields => .array (fields.map FieldDefinition.toJson)
  | union names | enum names => Json.ofStrings names

end TypeBody

structure TypeDefinition where
  name : String
  interfaces : List String
  body : TypeBody
  deriving DecidableEq, Repr

namespace TypeDefinition

/-- A name without the characters that cannot stand in one. -/
def strippedName (text : String) : String :=
  String.ofList (text.toList.filter isNameChar)

def usableName (text : String) : Except Error String :=
  let name := strippedName text
  if isLegalName name then .ok name else .error (.unusableTypeName text)

/-- A definition under the usable part of its name. The values of an enum have to be legal names. -/
def make (text : String) (body : TypeBody) (interfaces : List String) : Except Error TypeDefinition := do
  let name ← usableName text
  match body with
  | .enum values =>
    match values.find? (!isLegalName ·) with
    | some value => throw (.invalidEnumValue name value)
    | none => return ⟨name, interfaces, body⟩
  | _ => return ⟨name, interfaces, body⟩

def category (definition : TypeDefinition) : TypeCategory :=
  definition.body.category

def fields (definition : TypeDefinition) : List FieldDefinition :=
  definition.body.fields

/-- An object type with one more field; definitions without fields stay as they are. -/
def addField (field : FieldDefinition) (definition : TypeDefinition) : TypeDefinition :=
  match definition.body with
  | .object fields => { definition with body := .object (fields ++ [field]) }
  | _ => definition

def toJson (definition : TypeDefinition) : Json :=
  .object ([("name", .string definition.name), ("category", definition.category.toJson)] ++
    (if definition.interfaces.isEmpty then []
      else [("interfaces", Json.ofStrings definition.interfaces)]) ++
    [("body", definition.body.toJson)])

end TypeDefinition

end TableApi
