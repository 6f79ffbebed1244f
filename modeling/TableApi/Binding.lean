import TableApi.Template

/-! Resolvers: each planned operation is bound to an action on the data source of its table. -/
namespace TableApi

structure Binding where
  operation : String
  root : RootType
  action : StorageAction
  shape : KeyShape
  index : Option String
  dataSource : String
  cardinality : Cardinality
  keys : List KeyArgument
  request : String
  response : String
  deriving DecidableEq, Repr

namespace Binding

def toJson (binding : Binding) : Json :=
  .object ([("operationName", .string binding.operation), ("rootType", binding.root.toJson),
      ("storageAction", binding.action.toJson), ("keyShape", binding.shape.toJson)] ++
    Json.memberIfSome "indexName" .string binding.index ++
    [("dataSource", .string binding.dataSource), ("cardinality", binding.cardinality.toJson),
      ("keyArgs", .array (binding.keys.map KeyArgument.toJson)),
      ("requestMappingTemplate", .string binding.request),
      ("responseMappingTemplate", .string binding.response)])

end Binding

/-- The key made of the first argument in each role. -/
def KeyShape.ofArguments (arguments : List KeyArgument) : KeyShape :=
  match arguments.find? (·.role = .partition), arguments.find? (·.role = .sort) with
  | some p, some s => .composite (.ofArgument p.name) (.ofArgument s.name)
  | some p, none => .partition (.ofArgument p.name)
  | none, _ => .keyless

namespace Operation

/-- The request of an operation. New items get a generated partition key. -/
def template (operation : Operation) (partition : String) : RequestTemplate :=
  let shape := KeyShape.ofArguments operation.keys
  match operation.kind with
  | .scan => .scan
  | .getItem => .getItem shape
  | .query =>
    match operation.keys.map KeyArgument.name with
    | [] => .query operation.index ⟨partition, []⟩
    | first :: others => .query operation.index ⟨first, others⟩
  | .create => .putItem (.partition (.ofAutoId partition)) operation.input.isSome
  | .put | .subscribe => .putItem shape operation.input.isSome
  | .delete => .deleteItem shape

/-- The key that is told of a binding: that of the request, for queries that of the arguments. -/
def shape (operation : Operation) (partition : String) : KeyShape :=
  match operation.template partition with
  | .scan => .keyless
  | .getItem key | .putItem key _ | .deleteItem key => key
  | .query _ _ => .ofArguments operation.keys

def bind (operation : Operation) (partition dataSource : String) : Binding :=
  let template := operation.template partition
  { operation := operation.name
    root := operation.root
    action := template.action
    shape := operation.shape partition
    index := operation.index
    dataSource
    cardinality := operation.cardinality
    keys := operation.keys
    request := template.render
    response := (ResponseTemplate.ofCardinality operation.cardinality).render }

end Operation

namespace Table

/-- The data source is named for the table, with underscores for points. -/
def dataSourceName (table : Table) : String :=
  String.ofList (table.displayName.toList.map fun c => if c = '.' then '_' else c) ++ "DataSource"

def bindings (table : Table) (operations : List Operation) : List Binding :=
  operations.map (·.bind table.primary.partition.name table.dataSourceName)

end Table

end TableApi
