import TableApi.Binding
import TableApi.Schema.Registry

/-! A schema under construction: registered types, root fields, tables and free additions. -/
namespace TableApi

/-- An update of a state that may be refused. What it changed before stays changed. -/
abbrev Updating (σ α : Type) := ExceptT Error (StateM σ) α

structure Schema where
  registry : Registry
  /-- The roots in use, in the order of their first use. -/
  roots : List RootType
  /-- Base names of the tables. -/
  tables : List String
  /-- Free text that follows the types. -/
  additions : List String
  deriving DecidableEq, Repr

namespace Schema

def empty : Schema := ⟨.empty, [], [], []⟩

instance : Inhabited Schema := ⟨empty⟩

def register (definition : TypeDefinition) : Updating Schema TypeDefinition := do
  let schema ← get
  let (registered, registry) ← (schema.registry.register definition : Except Error _)
  set { schema with registry }
  return registered

def addObject (name : String) (attributes : Attributes) (interfaces : List String) :
    Updating Schema TypeDefinition := do
  let fields ← (FieldDefinition.ofAttributes attributes : Except Error _)
  register (← (TypeDefinition.make name (.object fields) interfaces : Except Error _))

def addInput (name : String) (attributes : Attributes) : Updating Schema TypeDefinition := do
  let fields ← (FieldDefinition.ofAttributes attributes : Except Error _)
  register (← (TypeDefinition.make name (.input fields) [] : Except Error _))

def addInterface (name : String) (attributes : Attributes) : Updating Schema TypeDefinition := do
  let fields ← (FieldDefinition.ofAttributes attributes : Except Error _)
  register (← (TypeDefinition.make name (.interface fields) [] : Except Error _))

def addUnion (name : String) (members : List String) : Updating Schema TypeDefinition := do
  register (← (TypeDefinition.make name (.union members) [] : Except Error _))

def addEnum (name : String) (values : List String) : Updating Schema TypeDefinition := do
  register (← (TypeDefinition.make name (.enum values) [] : Except Error _))

/-- Registers the object type of a root when the root is used for the first time. -/
def useRoot (root : RootType) : Updating Schema Unit := do
  unless (← get).roots.contains root do
    let _ ← register ⟨root.typeName, [], .object []⟩
    modify fun schema => { schema with roots := schema.roots ++ [root] }

def addRootField (root : RootType) (field : FieldDefinition) : Updating Schema Unit := do
  useRoot root
  let schema ← get
  match schema.registry.get? root.typeName with
  | some ⟨_, _, .object fields⟩ =>
    if fields.any (·.name = field.name) then throw (.repeatedField field.name root)
    else set { schema with registry := schema.registry.addField root.typeName field }
  | _ => throw (.rootNotObject root)

/-- The fields of a root that is in use. -/
def rootFields (schema : Schema) (root : RootType) : List FieldDefinition :=
  if schema.roots.contains root then
    ((schema.registry.get? root.typeName).map TypeDefinition.fields).getD []
  else []

def addText (text : String) : Updating Schema Unit :=
  modify fun schema => { schema with additions := schema.additions ++ [text] }

end Schema

/-- The root field of an operation: it takes the keys and the input, and gives one item or a list. -/
def Operation.toField (operation : Operation) (base : String) : FieldDefinition where
  name := operation.name
  arguments := operation.keys.map (fun key => ⟨key.name, key.type⟩) ++
    (operation.input.map fun input => ⟨"input", .named input⟩).toList
  type := match operation.cardinality with
    | .single => .named base
    | .list => .listOf base

namespace Schema

/-- Adds the object type of a table, its input type, and a root field for each operation. -/
def addTable (table : Table) (operations : List Operation) : Updating Schema Unit := do
  if (← get).tables.contains table.baseName then throw (.repeatedTable table.baseName)
  let _ ← addObject table.baseName table.attributes []
  if let some input := table.inputTypeName then
    let _ ← addInput input table.inputAttributes
  operations.forM fun operation => addRootField operation.root (operation.toField table.baseName)
  modify fun schema => { schema with tables := schema.tables ++ [table.baseName] }

end Schema

end TableApi
