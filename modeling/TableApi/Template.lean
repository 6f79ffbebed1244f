import TableApi.Operation

/-! Request and response templates of the storage data source. -/
namespace TableApi

inductive StorageAction where
  | getItem | query | scan | putItem | deleteItem
  deriving DecidableEq, Repr

namespace StorageAction

def word : StorageAction → String
  | getItem => "GetItem"
  | query => "Query"
  | scan => "Scan"
  | putItem => "PutItem"
  | deleteItem => "DeleteItem"

def toJson (action : StorageAction) : Json := .string action.word

end StorageAction

/-- Where the value of a key comes from when a request is made. -/
inductive KeySource where
  | argument (name : String)
  | autoId
  deriving DecidableEq, Repr

namespace KeySource

def render : KeySource → String
  | argument name => "$ctx.args." ++ name
  | autoId => "$util.autoId()"

def toJson : KeySource → Json
  | argument name => .object [("source", .string "argument"), ("argument", .string name)]
  | autoId => .object [("source", .string "autoId")]

end KeySource

/-- A value as storage wants it written. -/
def storageValue (source : String) : String :=
  "$util.dynamodb.toDynamoDBJson(" ++ source ++ ")"

def inQuotes (text : String) : String :=
  "\"" ++ text ++ "\""

def inBraces (text : String) : String :=
  "\x7b" ++ text ++ "\x7d"

structure KeyAssignment where
  name : String
  source : KeySource
  deriving DecidableEq, Repr

namespace KeyAssignment

/-- The key takes the argument of its own name. -/
def ofArgument (name : String) : KeyAssignment := ⟨name, .argument name⟩

def ofAutoId (name : String) : KeyAssignment := ⟨name, .autoId⟩

def render (assignment : KeyAssignment) : String :=
  inQuotes assignment.name ++ ": " ++ storageValue assignment.source.render

def toJson (assignment : KeyAssignment) : Json :=
  .object [("name", .string assignment.name), ("value", assignment.source.toJson)]

end KeyAssignment

/-- The key that a request addresses. -/
inductive KeyShape where
  | keyless
  | partition (partition : KeyAssignment)
  | composite (partition sort : KeyAssignment)
  deriving DecidableEq, Repr

namespace KeyShape

def assignments : KeyShape → List KeyAssignment
  | keyless => []
  | partition p => [p]
  | composite p s => [p, s]

def render (shape : KeyShape) : String :=
  inQuotes "key" ++ ": " ++ inBraces (String.intercalate ", " (shape.assignments.map KeyAssignment.render))

def toJson : KeyShape → Json
  | keyless => .object [("shape", .string "none")]
  | partition p => .object [("shape", .string "partition"), ("partition", p.toJson)]
  | composite p s =>
    .object [("shape", .string "composite"), ("partition", p.toJson), ("sort", s.toJson)]

end KeyShape

/-- Keys that all have to equal the arguments of their names; there is at least one. -/
structure KeyCondition where
  first : String
  others : List String
  deriving DecidableEq, Repr

namespace KeyCondition

def keys (condition : KeyCondition) : List String :=
  condition.first :: condition.others

def renderEquality (key : String) : String := "#" ++ key ++ " = :" ++ key

def renderName (key : String) : String := inQuotes ("#" ++ key) ++ ": " ++ inQuotes key

def renderValue (key : String) : String :=
  inQuotes (":" ++ key) ++ ": " ++ storageValue ("$ctx.args." ++ key)

def render (condition : KeyCondition) : String :=
  let expression := String.intercalate " AND " (condition.keys.map renderEquality)
  let names := String.intercalate ", " (condition.keys.map renderName)
  let values := String.intercalate ", " (condition.keys.map renderValue)
  inQuotes "query" ++ ": " ++ inBraces (inQuotes "expression" ++ ": " ++ inQuotes expression ++ ", " ++
    inQuotes "expressionNames" ++ ": " ++ inBraces names ++ ", " ++
    inQuotes "expressionValues" ++ ": " ++ inBraces values)

end KeyCondition

inductive RequestTemplate where
  | scan
  | getItem (key : KeyShape)
  | query (index : Option String) (condition : KeyCondition)
  | putItem (key : KeyShape) (projectInput : Bool)
  | deleteItem (key : KeyShape)
  deriving DecidableEq, Repr

namespace RequestTemplate

def action : RequestTemplate → StorageAction
  | scan => .scan
  | getItem _ => .getItem
  | query _ _ => .query
  | putItem _ _ => .putItem
  | deleteItem _ => .deleteItem

/-- The members that every request starts with. -/
def head (action : StorageAction) : String :=
  inQuotes "version" ++ ": " ++ inQuotes "2017-02-28" ++ ", " ++
    inQuotes "operation" ++ ": " ++ inQuotes action.word

def renderIndex : Option String → String
  | none => ""
  | some name => ", " ++ inQuotes "index" ++ ": " ++ inQuotes name

/-- The line that binds the input before it is projected. -/
def inputLine : String := "#set($input = $ctx.args.input)\n"

def inputMember : String :=
  ", " ++ inQuotes "attributeValues" ++ ": $util.dynamodb.toMapValuesJson($input)"

def render (template : RequestTemplate) : String :=
  let start := head template.action
  match template with
  | scan => inBraces start
  | getItem key | deleteItem key => inBraces (start ++ ", " ++ key.render)
  | query index condition => inBraces (start ++ renderIndex index ++ ", " ++ condition.render)
  | putItem key false => inBraces (start ++ ", " ++ key.render)
  | putItem key true => inputLine ++ inBraces (start ++ ", " ++ key.render ++ inputMember)

end RequestTemplate

inductive ResponseTemplate where
  | item | itemList
  deriving DecidableEq, Repr

namespace ResponseTemplate

def ofCardinality : Cardinality → ResponseTemplate
  | .single => item
  | .list => itemList

def render : ResponseTemplate → String
  | item => "$util.toJson($ctx.result)"
  | itemList => "$util.toJson($ctx.result.items)"

def toJson : ResponseTemplate → Json
  | item => .string "item"
  | itemList => .string "itemList"

end ResponseTemplate

end TableApi
