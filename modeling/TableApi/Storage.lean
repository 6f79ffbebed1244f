import TableApi.Binding

/-! What the storage has to provide: one descriptor for each table, and its account in plain lines. -/
namespace TableApi

structure GlobalIndexDescriptor where
  name : String
  partition : KeyAttribute
  sort : Option KeyAttribute
  projection : Projection
  capacity : Capacity
  deriving DecidableEq, Repr

/-- The partition key is that of the table. -/
structure LocalIndexDescriptor where
  name : String
  sort : KeyAttribute
  projection : Projection
  deriving DecidableEq, Repr

structure TableDescriptor where
  name : String
  partition : KeyAttribute
  sort : Option KeyAttribute
  /-- Every attribute that serves as a key somewhere, once. -/
  attributes : List KeyAttribute
  globalIndexes : List GlobalIndexDescriptor
  localIndexes : List LocalIndexDescriptor
  settings : TableSettings
  deriving DecidableEq, Repr

namespace GlobalIndex

def describe (index : GlobalIndex) : GlobalIndexDescriptor where
  name := index.name
  partition := index.partition.toAttribute
  sort := index.sort.map Key.toAttribute
  projection := index.projection
  capacity := index.capacity

end GlobalIndex

namespace LocalIndex

def describe (index : LocalIndex) : LocalIndexDescriptor :=
  ⟨index.name, index.sort.toAttribute, index.projection⟩

end LocalIndex

namespace Table

/-- The keys of a table and of its indexes, in order, repeated or not. -/
def allKeys (table : Table) : List Key :=
  table.primary.keys ++ table.globalIndexes.flatMap GlobalIndex.keys ++
    table.localIndexes.map LocalIndex.sort

def describe (table : Table) : TableDescriptor where
  name := table.displayName
  partition := table.primary.partition.toAttribute
  sort := table.primary.sort.map Key.toAttribute
  attributes := firstByName KeyAttribute.name (table.allKeys.map Key.toAttribute)
  globalIndexes := table.globalIndexes.map GlobalIndex.describe
  localIndexes := table.localIndexes.map LocalIndex.describe
  settings := table.settings

end Table

namespace GlobalIndexDescriptor

def toJson (index : GlobalIndexDescriptor) : Json :=
  .object ([("indexName", .string index.name), ("partitionKey", index.partition.toJson)] ++
    Json.memberIfSome "sortKey" KeyAttribute.toJson index.sort ++
    [("projection", index.projection.toJson), ("capacity", index.capacity.toJson)])

end GlobalIndexDescriptor

namespace LocalIndexDescriptor

def toJson (index : LocalIndexDescriptor) : Json :=
  .object [("indexName", .string index.name), ("sortKey", index.sort.toJson),
    ("projection", index.projection.toJson)]

end LocalIndexDescriptor

namespace TableDescriptor

def toJson (descriptor : TableDescriptor) : Json :=
  .object ([("tableName", .string descriptor.name), ("partitionKey", descriptor.partition.toJson)] ++
    Json.memberIfSome "sortKey" KeyAttribute.toJson descriptor.sort ++
    [("attributeDefinitions", .array (descriptor.attributes.map KeyAttribute.toJson)),
      ("globalSecondaryIndexes", .array (descriptor.globalIndexes.map GlobalIndexDescriptor.toJson)),
      ("localSecondaryIndexes", .array (descriptor.localIndexes.map LocalIndexDescriptor.toJson)),
      ("props", descriptor.settings.toJson)])

def keyLine (label : String) (key : KeyAttribute) : String :=
  label ++ " key: " ++ key.name ++ " (" ++ key.type.code ++ ")"

def indexLine (kind name : String) (projection : Projection) : String :=
  "  + " ++ kind ++ ": " ++ name ++ " [" ++ projection.typeName ++ "]"

def includedLines (projection : Projection) : List String :=
  (projection.nonKeyAttributes.map fun names => "    Include: " ++ String.intercalate ", " names).toList

def globalIndexLines (index : GlobalIndexDescriptor) : List String :=
  indexLine "GSI" index.name index.projection :: keyLine "    Partition" index.partition ::
    (index.sort.map (keyLine "    Sort")).toList ++ includedLines index.projection

def localIndexLines (index : LocalIndexDescriptor) : List String :=
  indexLine "LSI" index.name index.projection :: keyLine "    Sort" index.sort ::
    includedLines index.projection

def billingLine (settings : TableSettings) : String :=
  match settings.billing with
  | .payPerRequest => "  Billing: PAY_PER_REQUEST"
  | .provisioned =>
    "  Billing: PROVISIONED (read " ++ toString (settings.readCapacity.getD 0) ++ ", write " ++
      toString (settings.writeCapacity.getD 0) ++ ")"

/-- The account of a table that is shown before it is made. -/
def planLines (descriptor : TableDescriptor) : List String :=
  ("+ Create table: " ++ descriptor.name) :: keyLine "  Partition" descriptor.partition ::
    (descriptor.sort.map (keyLine "  Sort")).toList ++
    descriptor.globalIndexes.flatMap globalIndexLines ++
    descriptor.localIndexes.flatMap localIndexLines ++
    billingLine descriptor.settings ::
    (descriptor.settings.timeToLiveAttribute.map ("  TTL: " ++ ·)).toList

end TableDescriptor

end TableApi
