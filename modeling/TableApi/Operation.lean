import TableApi.Table.Basic

/-! The operations of a table. The schema and the resolvers are both derived from this one plan. -/
namespace TableApi

inductive Cardinality where
  | single | list
  deriving DecidableEq, Repr

def Cardinality.toJson : Cardinality → Json
  | single => .string "single"
  | list => .string "list"

inductive OperationKind where
  | scan | getItem | query | create | put | delete | subscribe
  deriving DecidableEq, Repr

def OperationKind.toJson : OperationKind → Json
  | scan => .string "scan"
  | getItem => .string "getItem"
  | query => .string "query"
  | create => .string "create"
  | put => .string "put"
  | delete => .string "delete"
  | subscribe => .string "subscribe"

/-- A key that an operation takes as an argument. -/
structure KeyArgument where
  name : String
  type : TypeRef
  role : KeyRole
  deriving DecidableEq, Repr

namespace KeyArgument

/-- The place of the key decides its role, whatever role it was declared with. -/
def ofKey (key : Key) (role : KeyRole) : KeyArgument :=
  ⟨key.name, key.type, role⟩

def partition (key : Key) : KeyArgument := ofKey key .partition

def sort (key : Key) : KeyArgument := ofKey key .sort

def toJson (argument : KeyArgument) : Json :=
  .object [("name", .string argument.name), ("type", .string argument.type.render),
    ("role", argument.role.toJson)]

end KeyArgument

structure Operation where
  name : String
  root : RootType
  kind : OperationKind
  cardinality : Cardinality
  keys : List KeyArgument
  /-- The input type of the argument `input`, if there is one. -/
  input : Option String
  /-- The secondary index that the operation runs against. -/
  index : Option String
  deriving DecidableEq, Repr

def Operation.toJson (operation : Operation) : Json :=
  .object [("name", .string operation.name), ("root", operation.root.toJson),
    ("kind", operation.kind.toJson), ("cardinality", operation.cardinality.toJson),
    ("keyArgs", .array (operation.keys.map KeyArgument.toJson)),
    ("input", Json.ofOption .string operation.input),
    ("indexName", Json.ofOption .string operation.index)]

/-- Of the elements with one name only the first. -/
def firstByName (name : α → String) : List α → List α
  | [] => []
  | a :: rest => a :: (firstByName name rest).filter (name · ≠ name a)

theorem firstByName_sublist (name : α → String) (xs : List α) :
    (firstByName name xs).Sublist xs := by
  induction xs with
  | nil => exact .slnil
  | cons a rest ih => exact (List.filter_sublist.trans ih).cons_cons a

theorem firstByName_nodup (name : α → String) (xs : List α) :
    ((firstByName name xs).map name).Nodup := by
  induction xs with
  | nil => simp [firstByName]
  | cons a rest ih =>
    refine List.nodup_cons.2 ⟨?_, (List.filter_sublist.map name).nodup ih⟩
    intro h
    obtain ⟨b, hb, he⟩ := List.mem_map.1 h
    simpa [he] using (List.mem_filter.1 hb).2

theorem mem_names_firstByName (name : α → String) (xs : List α) (n : String) :
    n ∈ (firstByName name xs).map name ↔ n ∈ xs.map name := by
  induction xs with
  | nil => simp [firstByName]
  | cons a rest ih =>
    by_cases h : n = name a
    · simp [firstByName, h]
    · simp only [List.mem_map] at ih
      simp only [firstByName, List.map_cons, List.mem_cons, h, false_or, List.mem_map,
        List.mem_filter, ← ih]
      constructor
      · rintro ⟨b, ⟨hb, _⟩, hn⟩; exact ⟨b, hb, hn⟩
      · rintro ⟨b, hb, hn⟩; exact ⟨b, ⟨hb, by simpa [hn] using h⟩, hn⟩

namespace Table

def primaryArguments (table : Table) : List KeyArgument :=
  .partition table.primary.partition :: (table.primary.sort.map KeyArgument.sort).toList

/-- What an operation by keys is called. -/
def operationName (table : Table) (verb : String) (partition : String) (sort : Option String) : String :=
  verb ++ table.baseName ++ "By" ++ Text.capitalize partition ++
    (sort.map fun name => "And" ++ Text.capitalize name).getD ""

def scanOperation (table : Table) : Operation :=
  ⟨"scan" ++ table.baseName, .query, .scan, .list, [], none, none⟩

def getOperation (table : Table) : Operation :=
  ⟨table.operationName "get" table.primary.partition.name (table.primary.sort.map Key.name),
    .query, .getItem, .single, table.primaryArguments, none, none⟩

def listOperation (table : Table) : Operation :=
  ⟨table.operationName "list" table.primary.partition.name none,
    .query, .query, .list, [.partition table.primary.partition], none, none⟩

/-- All items with one partition key of the index. -/
def globalPartitionOperation (table : Table) (index : GlobalIndex) : Operation :=
  let givesList := index.sort.isSome || index.list
  ⟨table.operationName (if givesList then "list" else "get") index.partition.name none,
    .query, .query, if givesList then .list else .single, [.partition index.partition], none,
    some index.name⟩

def globalSortOperation (table : Table) (index : GlobalIndex) (sort : Key) : Operation :=
  ⟨table.operationName "get" index.partition.name (some sort.name),
    .query, .query, .single, [.partition index.partition, .sort sort], none, some index.name⟩

def globalOperations (table : Table) (index : GlobalIndex) : List Operation :=
  table.globalPartitionOperation index ::
    (index.sort.map (table.globalSortOperation index)).toList

def localOperation (table : Table) (index : LocalIndex) : Operation :=
  ⟨table.operationName "get" table.primary.partition.name (some index.sort.name),
    .query, .query, .single, [.partition table.primary.partition, .sort index.sort], none,
    some index.name⟩

def createOperation (table : Table) : Operation :=
  ⟨"create" ++ table.baseName, .mutation, .create, .single, [], table.inputTypeName, none⟩

def putOperation (table : Table) : Operation :=
  ⟨"put" ++ table.baseName, .mutation, .put, .single, table.primaryArguments, table.inputTypeName, none⟩

def deleteOperation (table : Table) : Operation :=
  ⟨"delete" ++ table.baseName, .mutation, .delete, .single, table.primaryArguments, none, none⟩

def changeOperation (table : Table) : Operation :=
  ⟨"on" ++ table.baseName ++ "Change", .subscription, .subscribe, .single, table.primaryArguments,
    none, none⟩

/-- Local indexes are queried only in tables that have a global index too. -/
def queryCandidates (table : Table) : List Operation :=
  (if table.flags.scan then [table.scanOperation] else []) ++
  [table.getOperation] ++
  (if table.primary.sort.isSome then [table.listOperation] else []) ++
  table.globalIndexes.flatMap table.globalOperations ++
  (if table.globalIndexes.isEmpty then [] else table.localIndexes.map table.localOperation)

def mutationCandidates (table : Table) : List Operation :=
  (if table.flags.auto then [table.createOperation] else []) ++
  [table.putOperation, table.deleteOperation]

/-- The operations that flags, keys and indexes give rise to, names repeated or not. -/
def candidates (table : Table) : List Operation :=
  (if table.flags.query then table.queryCandidates else []) ++
  (if table.flags.mutation then table.mutationCandidates else []) ++
  (if table.flags.subscription then [table.changeOperation] else [])

/-- The operations of a table: of the candidates with one name the first. -/
def plan (table : Table) : List Operation :=
  firstByName Operation.name table.candidates

end Table

end TableApi
