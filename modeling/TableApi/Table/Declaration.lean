import TableApi.Table.Settings

/-! Tables as they are declared: keys, attributes and indexes in their short and long forms. -/
namespace TableApi

/-- A key by its name, by a reference that may give a type and a role, or already built. -/
inductive KeyDeclaration where
  | named (name : String)
  | reference (name : String) (type : Option String) (role : Option KeyRole)
  | built (key : Key)
  deriving DecidableEq, Repr

namespace KeyDeclaration

/-- The key in the given role. The type is the declared one, else that of the attribute; a built key
takes the type of the attribute over its own. -/
def toKey (declaration : KeyDeclaration) (role : KeyRole) (attributes : Attributes) :
    Except Error Key :=
  match declaration with
  | named name => Key.make name (attributes.get? name) role
  | reference name type ownRole => Key.make name (type <|> attributes.get? name) (ownRole.getD role)
  | built key => key.retype attributes

def reference? (value : Json) : Option KeyDeclaration :=
  match value.slots [["name"], ["type"], ["keyType"]] with
  | some [name, type, role] => do
    return reference (← Json.required Json.string? name) (← Json.optional Json.string? type)
      (← Json.optional KeyRole.ofJson? role)
  | _ => none

def ofJson? : Json → Option KeyDeclaration :=
  Json.keeping fun
    | .string name => some (named name)
    | value => reference? value

end KeyDeclaration

/-- Attributes by one name, by a list of names, or by names with types. -/
inductive AttributeDeclaration where
  | single (name : String)
  | list (names : List String)
  | typed (attributes : Attributes)
  deriving DecidableEq, Repr

namespace AttributeDeclaration

/-- Bare names are strings. -/
def toAttributes : AttributeDeclaration → Attributes
  | single name => OrderedMap.ofList [(name, "string")]
  | list names => OrderedMap.ofList (names.map (·, "string"))
  | typed attributes => attributes

def ofJson? : Json → Option AttributeDeclaration :=
  Json.keeping fun
    | .string name => some (single name)
    | .array names => (Json.list? Json.string? (.array names)).map list
    | value => (value.map? Json.string?).map typed

end AttributeDeclaration

/-- A global index in its long form. -/
structure GlobalIndexForm where
  partition : KeyDeclaration
  sort : Option KeyDeclaration
  included : List String
  name : Option String
  list : Bool
  capacity : Capacity
  deriving DecidableEq, Repr

namespace GlobalIndexForm

def ofPartition (name : String) : GlobalIndexForm :=
  ⟨.named name, none, [], none, false, .onDemand⟩

def toIndex (form : GlobalIndexForm) (table : String) (attributes : Attributes) :
    Except Error GlobalIndex := do
  let partition ← form.partition.toKey .partition attributes
  let sort ← form.sort.mapM (·.toKey .sort attributes)
  let name := form.name.getD (GlobalIndex.defaultName table partition.name (sort.map Key.name))
  return ⟨name, partition, sort, form.list, Projection.ofInclude form.included, form.capacity⟩

def ofJson? (value : Json) : Option GlobalIndexForm :=
  match value.slots [["partitionKey"], ["sortKey"], ["include"], ["indexName"], ["list"],
    ["capacity"]] with
  | some [partition, sort, included, name, list, capacity] => do
    return ⟨← Json.required KeyDeclaration.ofJson? partition,
      ← Json.optional KeyDeclaration.ofJson? sort,
      ← Json.defaulted [] (Json.list? Json.string?) included,
      ← Json.optional Json.string? name,
      ← Json.defaulted false Json.bool? list,
      ← Json.defaulted .onDemand Capacity.ofJson? capacity⟩
  | _ => none

end GlobalIndexForm

/-- A global index by the name of its partition key, in its long form, or already built. -/
inductive GlobalIndexDeclaration where
  | named (partition : String)
  | declared (form : GlobalIndexForm)
  | built (index : GlobalIndex)
  deriving DecidableEq, Repr

namespace GlobalIndexDeclaration

def toIndex (declaration : GlobalIndexDeclaration) (table : String) (attributes : Attributes) :
    Except Error GlobalIndex :=
  match declaration with
  | named partition => (GlobalIndexForm.ofPartition partition).toIndex table attributes
  | declared form => form.toIndex table attributes
  | built index => index.retype attributes

def ofJson? : Json → Option GlobalIndexDeclaration :=
  Json.keeping fun
    | .string name => some (named name)
    | value => (GlobalIndexForm.ofJson? value).map declared

end GlobalIndexDeclaration

/-- A local index in its long form. -/
structure LocalIndexForm where
  sort : KeyDeclaration
  included : List String
  name : Option String
  deriving DecidableEq, Repr

namespace LocalIndexForm

def ofSort (name : String) : LocalIndexForm :=
  ⟨.named name, [], none⟩

def toIndex (form : LocalIndexForm) (table : String) (attributes : Attributes) :
    Except Error LocalIndex := do
  let sort ← form.sort.toKey .sort attributes
  let name := form.name.getD (LocalIndex.defaultName table sort.name)
  return ⟨name, sort, Projection.ofInclude form.included⟩

def ofJson? (value : Json) : Option LocalIndexForm :=
  match value.slots [["sortKey"], ["include"], ["indexName"]] with
  | some [sort, included, name] => do
    return ⟨← Json.required KeyDeclaration.ofJson? sort,
      ← Json.defaulted [] (Json.list? Json.string?) included,
      ← Json.optional Json.string? name⟩
  | _ => none

end LocalIndexForm

/-- A local index by the name of its sort key, in its long form, or already built. -/
inductive LocalIndexDeclaration where
  | named (sort : String)
  | declared (form : LocalIndexForm)
  | built (index : LocalIndex)
  deriving DecidableEq, Repr

namespace LocalIndexDeclaration

def toIndex (declaration : LocalIndexDeclaration) (table : String) (attributes : Attributes) :
    Except Error LocalIndex :=
  match declaration with
  | named sort => (LocalIndexForm.ofSort sort).toIndex table attributes
  | declared form => form.toIndex table attributes
  | built index => index.retype attributes

def ofJson? : Json → Option LocalIndexDeclaration :=
  Json.keeping fun
    | .string name => some (named name)
    | value => (LocalIndexForm.ofJson? value).map declared

end LocalIndexDeclaration

structure TableDeclaration where
  name : String
  partition : KeyDeclaration
  sort : Option KeyDeclaration
  attributes : Option AttributeDeclaration
  globalIndexes : List GlobalIndexDeclaration
  localIndexes : List LocalIndexDeclaration
  scan : Bool
  auto : Bool
  subscription : Bool
  query : Option Bool
  mutation : Option Bool
  /-- Stands before the name of the table where no label is given. -/
  namespaceLabel : Option String
  settings : Option TableSettings
  deriving DecidableEq, Repr

namespace TableDeclaration

def ofName (name : String) (partition : KeyDeclaration) : TableDeclaration :=
  ⟨name, partition, none, none, [], [], false, false, false, none, none, none, none⟩

def ofJson? (value : Json) : Option TableDeclaration :=
  match value.slots [["tableName"], ["partitionKey"], ["sortKey"], ["attributes"],
    ["globalSecondaryIndexes"], ["localSecondaryIndexes"], ["scan"], ["auto"], ["subscription"],
    ["query"], ["mutation"], ["prefix"], ["tableProps", "props"]] with
  | some [name, partition, sort, attributes, globals, locals, scan, auto, subscription, query,
      mutation, label, settings] => do
    return {
      name := ← Json.required Json.string? name
      partition := ← Json.required KeyDeclaration.ofJson? partition
      sort := ← Json.optional KeyDeclaration.ofJson? sort
      attributes := ← Json.optional AttributeDeclaration.ofJson? attributes
      globalIndexes := ← Json.defaulted [] (Json.list? GlobalIndexDeclaration.ofJson?) globals
      localIndexes := ← Json.defaulted [] (Json.list? LocalIndexDeclaration.ofJson?) locals
      scan := ← Json.defaulted false Json.bool? scan
      auto := ← Json.defaulted false Json.bool? auto
      subscription := ← Json.defaulted false Json.bool? subscription
      query := ← Json.optional Json.bool? query
      mutation := ← Json.optional Json.bool? mutation
      namespaceLabel := ← Json.optional Json.string? label
      settings := ← Json.optional TableSettings.ofJson? settings }
  | _ => none

end TableDeclaration

end TableApi
