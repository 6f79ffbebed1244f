import TableApi.Table.Declaration

/-! Tables with built keys and indexes, and the complaints that keep a declaration from becoming one. -/
namespace TableApi

/-- The groups of operations that a table takes part in. -/
structure TableFlags where
  scan : Bool
  auto : Bool
  query : Bool
  mutation : Bool
  subscription : Bool
  deriving DecidableEq, Repr

/-- Scans are queries and automatic keys are mutations; both groups are on unless switched off. -/
def TableFlags.resolve (scan auto : Bool) (query mutation : Option Bool) (subscription : Bool) :
    TableFlags :=
  ⟨scan, auto, scan || query.getD true, auto || mutation.getD true, subscription⟩

structure Table where
  /-- The declared name, from which types and operations are named. -/
  baseName : String
  /-- The name in storage, with the label in front. -/
  displayName : String
  primary : PrimaryKey
  localIndexes : List LocalIndex
  globalIndexes : List GlobalIndex
  attributes : Attributes
  flags : TableFlags
  settings : TableSettings
  deriving DecidableEq, Repr

namespace Table

def withSettings (table : Table) (settings : TableSettings) : Table :=
  { table with settings }

/-- The attributes that are written through the input type: all but the primary key. -/
def inputAttributes (table : Table) : Attributes :=
  table.attributes.filterNames fun name => !table.primary.names.contains name

def inputTypeName (table : Table) : Option String :=
  if table.inputAttributes.isEmpty then none else some (table.baseName ++ "Input")

def nameComplaints (name : String) : List Error :=
  if !isLegalName name then [.invalidTableName name]
  else if RootType.all.any (·.typeName = name) then [.reservedTableName name]
  else []

def keyComplaints (attributes : Attributes) (use : KeyUse) (key : Key) : List Error :=
  if attributes.contains key.name then [] else [.keyNotAttribute use key.name attributes]

def attributeComplaints (entry : String × String) : List Error :=
  if !isLegalName entry.1 then [.invalidAttributeName entry.1]
  else if (TypeRef.parse? entry.2).isNone then [.invalidType entry.2]
  else []

def isIndexNameChar (c : Char) : Bool :=
  c.isAlphanum || c = '_' || c = '.' || c = '-'

/-- 3 to 255 letters, digits, underscores, points and hyphens. -/
def isIndexName (name : String) : Bool :=
  3 ≤ name.length && name.length ≤ 255 && name.toList.all isIndexNameChar

def indexComplaints (attributes : Attributes) (name : String) (keys : List Key) : List Error :=
  (if isIndexName name then [] else [.invalidIndexName name]) ++
    keys.flatMap (keyComplaints attributes (.index name))

/-- All that is wrong with a table, the first to be reported first. -/
def complaints (table : Table) : List Error :=
  nameComplaints table.baseName ++
  keyComplaints table.attributes .tablePartition table.primary.partition ++
  table.primary.sort.toList.flatMap (keyComplaints table.attributes .tableSort) ++
  table.attributes.entries.flatMap attributeComplaints ++
  table.globalIndexes.flatMap (fun index => indexComplaints table.attributes index.name index.keys) ++
  table.localIndexes.flatMap (fun index => indexComplaints table.attributes index.name [index.sort]) ++
  (table.settings.complaint? table.baseName).toList

def check (table : Table) : Except Error Table :=
  match table.complaints with
  | [] => .ok table
  | error :: _ => .error error

/-- The name in storage: the label, else the label of the declaration, stands before the name. -/
def displayNameOf (label : Option String) (declaration : TableDeclaration) : String :=
  match label <|> declaration.namespaceLabel with
  | some label => label ++ "." ++ declaration.name
  | none => declaration.name

/-- Builds keys and indexes, without any check but of the types that are read. -/
def assemble (declaration : TableDeclaration) (label : Option String) : Except Error Table := do
  let attributes := (declaration.attributes.map (·.toAttributes)).getD .empty
  let partition ← declaration.partition.toKey .partition attributes
  let sort ← declaration.sort.mapM (·.toKey .sort attributes)
  let localIndexes ← declaration.localIndexes.mapM (·.toIndex declaration.name attributes)
  let globalIndexes ← declaration.globalIndexes.mapM (·.toIndex declaration.name attributes)
  return {
    baseName := declaration.name
    displayName := displayNameOf label declaration
    primary := ⟨partition, sort⟩
    localIndexes
    globalIndexes
    attributes
    flags := .resolve declaration.scan declaration.auto declaration.query declaration.mutation
      declaration.subscription
    settings := declaration.settings.getD .default }

def ofDeclaration (declaration : TableDeclaration) (label : Option String) : Except Error Table := do
  (← assemble declaration label).check

theorem check_eq_ok_iff (table result : Table) :
    table.check = .ok result ↔ table.complaints = [] ∧ result = table := by
  cases h : table.complaints with
  | nil => simp [check, h, eq_comm]
  | cons error rest => simp [check, h]

end Table

end TableApi
