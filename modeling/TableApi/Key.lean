import TableApi.Error
import TableApi.Json.Record
import TableApi.Scalar
import TableApi.TypeRef

/-! Key fields of tables and indexes, and the storage type of their attributes. -/
namespace TableApi

inductive KeyRole where
  | partition | sort
  deriving DecidableEq, Repr

namespace KeyRole

def word : KeyRole → String
  | partition => "partition"
  | sort => "sort"

def ofWord? : String → Option KeyRole
  | "partition" => some partition
  | "sort" => some sort
  | _ => none

def toJson (role : KeyRole) : Json := .string role.word

def ofJson? (value : Json) : Option KeyRole := value.constant?.bind ofWord?

end KeyRole

inductive AttributeType where
  | string | number | binary
  deriving DecidableEq, Repr

namespace AttributeType

/-- The storage type of a named type. Whole and floating numbers and timestamps are numbers, booleans
are binary, all else is a string; the name tells by the words that stand in it, in any case. -/
def classify (typeName : String) : AttributeType :=
  let name := Text.lower typeName.toList
  if ["int", "float", "timestamp"].any fun word => Text.hasInside word.toList name then number
  else if Text.hasInside "boolean".toList name then binary
  else string

def code : AttributeType → String
  | string => "S"
  | number => "N"
  | binary => "B"

def ofCode? : String → Option AttributeType
  | "S" => some string
  | "N" => some number
  | "B" => some binary
  | _ => none

def toJson (type : AttributeType) : Json := .string type.code

def ofJson? (value : Json) : Option AttributeType := value.constant?.bind ofCode?

end AttributeType

/-- An attribute that serves as a key in storage. -/
structure KeyAttribute where
  name : String
  type : AttributeType
  deriving DecidableEq, Repr

namespace KeyAttribute

def toJson (key : KeyAttribute) : Json :=
  .object [("name", .string key.name), ("attributeType", key.type.toJson)]

def ofJson? (value : Json) : Option KeyAttribute :=
  match value.slots [["name"], ["attributeType"]] with
  | some [name, type] => do
    return ⟨← Json.required Json.string? name, ← Json.required AttributeType.ofJson? type⟩
  | _ => none

end KeyAttribute

/-- The declared types of attributes, in order. -/
abbrev Attributes := OrderedMap String

structure Key where
  name : String
  type : TypeRef
  role : KeyRole
  deriving DecidableEq, Repr

namespace Key

def parseType (text : String) : Except Error TypeRef :=
  match TypeRef.parse? text with
  | some type => .ok type
  | none => .error (.invalidType text)

/-- A key whose type is a string unless one is given. -/
def make (name : String) (typeText : Option String) (role : KeyRole) : Except Error Key := do
  return ⟨name, ← parseType (typeText.getD "String"), role⟩

/-- The same key but for what is given. -/
def rebind (key : Key) (name typeText : Option String) (role : Option KeyRole) : Except Error Key := do
  let type ← match typeText with
    | some text => parseType text
    | none => pure key.type
  return ⟨name.getD key.name, type, role.getD key.role⟩

/-- An attribute of the key's name decides its type. -/
def retype (key : Key) (attributes : Attributes) : Except Error Key :=
  match attributes.get? key.name with
  | some text => do return { key with type := ← parseType text }
  | none => .ok key

def withRole (key : Key) (role : KeyRole) : Key :=
  { key with role }

/-- The primitive by which templates know the type; types that are no primitive are records. -/
def primitive (key : Key) : String :=
  let suffix := if key.type.isList then "[]" else ""
  match String.ofList (Text.lower key.type.name.toList) with
  | "int" | "float" => "number" ++ suffix
  | "id" | "string" => "string" ++ suffix
  | "boolean" => "boolean" ++ suffix
  | _ => "record"

def toAttribute (key : Key) : KeyAttribute :=
  ⟨key.name, AttributeType.classify key.type.name⟩

def toJson (key : Key) : Json :=
  .object [("name", .string key.name), ("type", .string key.type.render), ("role", key.role.toJson)]

end Key

end TableApi
