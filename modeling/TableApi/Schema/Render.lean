import TableApi.Schema.Basic

/-! The text of a schema. Type names are resolved here, so that types may be named before they are
registered. -/
namespace TableApi

namespace TypeRef

def renderIn (ref : TypeRef) (registry : Registry) : Except Error String := do
  return ref.renderAs (← registry.resolve ref.name)

end TypeRef

namespace ArgumentDefinition

def renderIn (argument : ArgumentDefinition) (registry : Registry) : Except Error String := do
  return argument.name ++ ": " ++ (← argument.type.renderIn registry)

end ArgumentDefinition

namespace FieldDefinition

def renderArguments (arguments : List ArgumentDefinition) (registry : Registry) :
    Except Error String :=
  if arguments.isEmpty then .ok ""
  else do
    let texts ← arguments.mapM (·.renderIn registry)
    return "(" ++ String.intercalate " " texts ++ ")"

/-- Written as `name(argument: Type other: Type): Type`. -/
def renderIn (field : FieldDefinition) (registry : Registry) : Except Error String := do
  let arguments ← renderArguments field.arguments registry
  return field.name ++ arguments ++ ": " ++ (← field.type.renderIn registry)

end FieldDefinition

namespace TypeDefinition

/-- The rendered name of a type that has to be of a certain category. -/
def resolveMember (owner : TypeDefinition) (expected : TypeCategory) (registry : Registry)
    (name : String) : Except Error String :=
  match registry.get? name with
  | none => .error (.unknownType name)
  | some member =>
    if member.category = expected then .ok member.name
    else .error (.wrongCategory owner.category owner.name name expected)

def renderInterfaces (definition : TypeDefinition) (registry : Registry) : Except Error String :=
  if definition.interfaces.isEmpty then .ok ""
  else do
    let names ← definition.interfaces.mapM (definition.resolveMember .interface registry)
    return " implements " ++ String.intercalate " & " names

def openingBrace : String := " \x7b"

def closingBrace : String := "\x7d"

def renderFields (definition : TypeDefinition) (fields : List FieldDefinition) (registry : Registry) :
    Except Error (List String) := do
  let interfaces ← definition.renderInterfaces registry
  let lines ← fields.mapM fun field => do return "  " ++ (← field.renderIn registry)
  return (definition.category.keyword ++ " " ++ definition.name ++ interfaces ++ openingBrace) ::
    lines ++ [closingBrace]

def renderLines (definition : TypeDefinition) (registry : Registry) : Except Error (List String) :=
  match definition.body with
  | .object fields | .input fields | .interface fields => definition.renderFields fields registry
  | .union members => do
    let names ← members.mapM (definition.resolveMember .type registry)
    return ["union " ++ definition.name ++ " = " ++ String.intercalate " | " names]
  | .enum values =>
    .ok (("enum " ++ definition.name ++ openingBrace) :: values.map ("  " ++ ·) ++ [closingBrace])

end TypeDefinition

namespace Schema

/-- The block that names the roots in use, in their fixed order. -/
def rootLines (roots : List RootType) : List String :=
  let present := RootType.all.filter roots.contains
  if present.isEmpty then []
  else
    ("schema" ++ TypeDefinition.openingBrace) ::
      present.map (fun root => "  " ++ root.keyword ++ ": " ++ root.typeName) ++
      [TypeDefinition.closingBrace]

def typeLines (registry : Registry) : Except Error (List String) := do
  return (← registry.definitions.mapM (·.renderLines registry)).flatten

/-- An addition without the line end that may stand at its end. -/
def additionLine (text : String) : String :=
  match text.toList.reverse with
  | '\n' :: rest => String.ofList rest.reverse
  | _ => text

/-- Each line with its end. -/
def ofLines (lines : List String) : String :=
  String.join (lines.map (· ++ "\n"))

def render (schema : Schema) : Except Error String := do
  let types ← typeLines schema.registry
  return ofLines (rootLines schema.roots ++ types ++ schema.additions.map additionLine)

end Schema

end TableApi
