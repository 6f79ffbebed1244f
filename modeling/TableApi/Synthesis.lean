import TableApi.Config
import TableApi.Schema.Render
import TableApi.Storage

/-! One pass over tables and types: schema and resolvers are derived side by side and compared at the
end. -/
namespace TableApi

/-- What a pass gives. -/
structure Output where
  schema : String
  bindings : List Binding
  tables : List TableDescriptor
  dataSources : List DataSource
  api : Api
  deriving DecidableEq, Repr

def Output.toJson (output : Output) : Json :=
  .object [("schema", .string output.schema),
    ("bindings", .array (output.bindings.map Binding.toJson)),
    ("tables", .array (output.tables.map TableDescriptor.toJson)),
    ("dataSources", .array (output.dataSources.map DataSource.toJson)),
    ("api", output.api.toJson)]

structure Synthesis where
  id : String
  schema : Schema
  tables : List Table
  bindings : List Binding
  authorization : Option Authorization
  apiSettings : Settings
  deriving DecidableEq, Repr

namespace Synthesis

def start (id : String) (authorization : Option Authorization) (apiSettings : Settings) : Synthesis :=
  ⟨id, .empty, [], [], authorization, apiSettings⟩

/-- Runs an update of the schema within the pass. -/
def onSchema (update : Updating Schema α) : Updating Synthesis α := do
  let pass ← get
  let (result, schema) := update.run.run pass.schema
  set { pass with schema }
  match result with
  | .ok value => return value
  | .error error => throw error

def addTable (table : Table) : Updating Synthesis Unit := do
  let operations := table.plan
  onSchema (Schema.addTable table operations)
  modify fun pass => { pass with
    bindings := pass.bindings ++ table.bindings operations
    tables := pass.tables ++ [table] }

def addTypes (types : AuxiliaryTypes) : Updating Synthesis Unit :=
  onSchema types.register

def definition (pass : Synthesis) : Except Error String :=
  pass.schema.render

/-- Adds free text to the schema and gives the schema text. -/
def addText (text : String) : Updating Synthesis String := do
  onSchema (Schema.addText text)
  ((← get).definition : Except Error _)

/-- The keys that a field takes: its arguments but for the input. -/
def fieldKeys (field : FieldDefinition) : List (String × TypeRef) :=
  (field.arguments.filter (·.name ≠ "input")).map fun argument => (argument.name, argument.type)

def bindingKeys (binding : Binding) : List (String × TypeRef) :=
  binding.keys.map fun key => (key.name, key.type)

/-- What is wrong between a binding and the root field of its name. -/
def bindingComplaint? (schema : Schema) (binding : Binding) : Option Error :=
  match (schema.rootFields binding.root).find? (·.name = binding.operation) with
  | none => some (.bindingWithoutField binding.operation binding.root)
  | some field =>
    if fieldKeys field ≠ bindingKeys binding then
      some (.argumentsDisagree binding.root binding.operation)
    else if field.type.isList ≠ decide (binding.cardinality = .list) then
      some (.cardinalityDisagrees binding.root binding.operation)
    else none

def fieldComplaint? (bindings : List Binding) (root : RootType) (field : FieldDefinition) :
    Option Error :=
  if bindings.any fun binding => binding.root = root && binding.operation = field.name then none
  else some (.fieldWithoutBinding root field.name)

/-- All that is wrong between bindings and root fields, the first to be reported first. -/
def complaints (schema : Schema) (bindings : List Binding) : List Error :=
  bindings.filterMap (bindingComplaint? schema) ++
    RootType.all.flatMap fun root => (schema.rootFields root).filterMap (fieldComplaint? bindings root)

def verify (pass : Synthesis) : Except Error Unit :=
  match complaints pass.schema pass.bindings with
  | [] => .ok ()
  | error :: _ => .error error

/-- Without authorization settings a user pool is made for the API. -/
def finish (pass : Synthesis) : Except Error Output := do
  pass.verify
  let schema ← pass.schema.render
  let authorization := pass.authorization.getD (.resolve pass.id ⟨none, none, false⟩ [])
  return {
    schema
    bindings := pass.bindings
    tables := pass.tables.map Table.describe
    dataSources := pass.tables.map DataSource.ofTable
    api := .ofId pass.id authorization pass.apiSettings }

end Synthesis

/-- The whole pass over a configuration: tables first, then auxiliary types. -/
def synthesize (id : String) (config : Config) (label : Option String) : Except Error Output := do
  let tables ← config.buildTables label
  let build : Updating Synthesis Unit := do
    tables.forM Synthesis.addTable
    Synthesis.addTypes config.types
  match build.run.run (.start id (some (config.authorization id)) config.apiSettings) with
  | (.ok (), pass) => pass.finish
  | (.error error, _) => .error error

end TableApi
