import TableApi.Key

/-! Primary keys and secondary indexes, and what an index copies from its table. -/
namespace TableApi

/-- Read and write capacity; what is absent is on demand. -/
structure Capacity where
  read : Option UInt32
  write : Option UInt32
  deriving DecidableEq, Repr

namespace Capacity

def onDemand : Capacity := ⟨none, none⟩

def toJson (capacity : Capacity) : Json :=
  .object (Json.memberIfSome "read" Json.ofWord32 capacity.read ++
    Json.memberIfSome "write" Json.ofWord32 capacity.write)

def ofJson? (value : Json) : Option Capacity :=
  match value.slots [["read"], ["write"]] with
  | some [read, write] => do
    return ⟨← Json.optional Json.word32? read, ← Json.optional Json.word32? write⟩
  | _ => none

end Capacity

/-- The attributes that an index holds besides its keys. -/
inductive Projection where
  | all
  | keysOnly
  | including (attributes : List String)
  deriving DecidableEq, Repr

namespace Projection

/-- Case is told apart in no way that Unicode's simple case folding does not: `k` also goes as the
Kelvin sign, `s` as the long s. -/
def foldsTo (letter c : Char) : Bool :=
  c.toLower = letter || (letter = 'k' && c = '\u212a') || (letter = 's' && c = '\u017f')

/-- Takes a word off the start, whatever its case. -/
def dropWord : List Char → List Char → Option (List Char)
  | [], cs => some cs
  | _ :: _, [] => none
  | letter :: word, c :: cs => if foldsTo letter c then dropWord word cs else none

def startsWithOnly (cs : List Char) : Bool :=
  (dropWord ['o', 'n', 'l', 'y'] cs).isSome

/-- `only`, or `only` after one character that is not the end of a line. -/
def onlyWithinOne (cs : List Char) : Bool :=
  startsWithOnly cs ||
    match cs with
    | [] => false
    | c :: rest => c != '\n' && startsWithOnly rest

/-- Whether a text starts with `key`, maybe `s`, maybe one more character, `only`. -/
def startsWithMarker (cs : List Char) : Bool :=
  match dropWord ['k', 'e', 'y'] cs with
  | none => false
  | some rest => onlyWithinOne rest || ((dropWord ['s'] rest).map onlyWithinOne).getD false

def holdsMarker : List Char → Bool
  | [] => false
  | c :: cs => startsWithMarker (c :: cs) || holdsMarker cs

/-- Nothing listed means everything; a marker for keys only, anywhere, outdoes the rest of the list. -/
def ofInclude (entries : List String) : Projection :=
  if entries.isEmpty then all
  else if entries.any fun entry => holdsMarker entry.toList then keysOnly
  else including entries

def typeName : Projection → String
  | all => "ALL"
  | keysOnly => "KEYS_ONLY"
  | including _ => "INCLUDE"

def nonKeyAttributes : Projection → Option (List String)
  | including attributes => some attributes
  | _ => none

def toJson (projection : Projection) : Json :=
  .object (("projectionType", .string projection.typeName) ::
    Json.memberIfSome "nonKeyAttributes" Json.ofStrings projection.nonKeyAttributes)

/-- Attributes have to come with the type that includes some, and only with it. -/
def ofParts? (type : Json) (attributes : Option Json) : Option Projection := do
  match ← type.constant?, attributes with
  | "ALL", none | "ALL", some .null => some all
  | "KEYS_ONLY", none | "KEYS_ONLY", some .null => some keysOnly
  | "INCLUDE", some names => return including (← Json.list? Json.string? names)
  | _, _ => none

def ofJson? : Json → Option Projection
  | .object members =>
    match members.filter (·.1 = "projectionType"), members.filter (·.1 = "nonKeyAttributes") with
    | [type], [] => ofParts? type.2 none
    | [type], [attributes] => ofParts? type.2 (some attributes.2)
    | _, _ => none
  | .array [type, attributes] => ofParts? type (some attributes)
  | _ => none

end Projection

/-- An index with a partition key of its own and maybe a sort key. -/
structure GlobalIndex where
  name : String
  partition : Key
  sort : Option Key
  /-- Declared to give lists even where a sort key could narrow the result down. -/
  list : Bool
  projection : Projection
  capacity : Capacity
  deriving DecidableEq, Repr

namespace GlobalIndex

def defaultName (table partition : String) (sort : Option String) : String :=
  "global" ++ Text.capitalize table ++ Text.capitalize partition ++
    (sort.map Text.capitalize).getD ""

def givesList (index : GlobalIndex) : Bool :=
  index.list || index.sort.isNone

def keys (index : GlobalIndex) : List Key :=
  index.partition :: index.sort.toList

def retype (index : GlobalIndex) (attributes : Attributes) : Except Error GlobalIndex := do
  return { index with
    partition := ← index.partition.retype attributes
    sort := ← index.sort.mapM (·.retype attributes) }

def toJson (index : GlobalIndex) : Json :=
  .object [("name", .string index.name), ("partitionKey", index.partition.toJson),
    ("sortKey", Json.ofOption Key.toJson index.sort), ("list", .bool index.list),
    ("projection", index.projection.toJson), ("capacity", index.capacity.toJson)]

end GlobalIndex

/-- Another sort key beside the table's partition key. -/
structure LocalIndex where
  name : String
  sort : Key
  projection : Projection
  deriving DecidableEq, Repr

namespace LocalIndex

def defaultName (table sort : String) : String :=
  "local" ++ Text.capitalize table ++ Text.capitalize sort

def retype (index : LocalIndex) (attributes : Attributes) : Except Error LocalIndex := do
  return { index with sort := ← index.sort.retype attributes }

def toJson (index : LocalIndex) : Json :=
  .object [("name", .string index.name), ("sortKey", index.sort.toJson),
    ("projection", index.projection.toJson)]

end LocalIndex

structure PrimaryKey where
  partition : Key
  sort : Option Key
  deriving DecidableEq, Repr

namespace PrimaryKey

/-- The partition key first. -/
def keys (primary : PrimaryKey) : List Key :=
  primary.partition :: primary.sort.toList

def names (primary : PrimaryKey) : List String :=
  primary.keys.map Key.name

def toJson (primary : PrimaryKey) : Json :=
  .object [("partitionKey", primary.partition.toJson),
    ("sortKey", Json.ofOption Key.toJson primary.sort)]

end PrimaryKey

end TableApi
