import TableApi.Json.Printer
import TableApi.OrderedMap
import TableApi.Schema.Category

/-! Everything that can be refused, as causes, and the words for each cause. -/
namespace TableApi

inductive ErrorKind where
  | validation | conflict | configuration
  deriving DecidableEq, Repr

/-- What a key that has to be an attribute is used for. -/
inductive KeyUse where
  | tablePartition | tableSort
  | index (name : String)
  deriving DecidableEq, Repr

def KeyUse.describe : KeyUse → String
  | tablePartition => "Partition Key"
  | tableSort => "Sort Key"
  | index name => "Index " ++ name ++ " key"

inductive Error where
  | invalidType (text : String)
  | invalidTableName (name : String)
  | reservedTableName (name : String)
  | keyNotAttribute (use : KeyUse) (name : String) (attributes : OrderedMap String)
  | invalidAttributeName (name : String)
  | invalidIndexName (name : String)
  | missingCapacity (table : String)
  | unexpectedCapacity (table : String)
  | unusableTypeName (text : String)
  | invalidEnumValue (enum value : String)
  | scalarName (name : String)
  | categoryTaken (name : String) (registered requested : TypeCategory)
  | unknownType (name : String)
  | wrongCategory (owner : TypeCategory) (ownerName member : String) (expected : TypeCategory)
  | repeatedTable (name : String)
  | repeatedField (field : String) (root : RootType)
  | rootNotObject (root : RootType)
  | shapeNeedsArray (category : TypeCategory)
  | shapeIsArray (category : TypeCategory)
  | bindingWithoutField (operation : String) (root : RootType)
  | argumentsDisagree (root : RootType) (operation : String)
  | cardinalityDisagrees (root : RootType) (operation : String)
  | fieldWithoutBinding (root : RootType) (field : String)
  | noTables
  | settingsForBuiltTable (table : String)
  | missingFile (path : String)
  | notJsonFile (path : String)
  | unreadableFile (path reason : String)
  | malformedFile (path : String)
  deriving DecidableEq, Repr

namespace Error

def kind : Error → ErrorKind
  | categoryTaken .. | repeatedTable .. | repeatedField .. | rootNotObject .. | bindingWithoutField ..
  | argumentsDisagree .. | cardinalityDisagrees .. | fieldWithoutBinding ..
  | settingsForBuiltTable .. => .conflict
  | noTables | missingFile .. | notJsonFile .. | unreadableFile .. | malformedFile .. => .configuration
  | _ => .validation

def describe : Error → String
  | invalidType text => "Invalid type string '" ++ text ++ "'"
  | invalidTableName name => "Table name '" ++ name ++ "' must be a valid GraphQL name"
  | reservedTableName name => "Table name '" ++ name ++ "' is reserved for a root type"
  | keyNotAttribute use name attributes =>
    use.describe ++ " " ++ name ++ " must be present in attributes " ++
      (Json.object (attributes.entries.map fun entry => (entry.1, .string entry.2))).pretty
  | invalidAttributeName name => "Attribute name '" ++ name ++ "' must be a valid GraphQL name"
  | invalidIndexName name =>
    "Index name '" ++ name ++ "' must be 3 to 255 letters, digits, '_', '-' or '.'"
  | missingCapacity table =>
    "Table " ++ table ++ " uses PROVISIONED billing but is missing read or write capacity"
  | unexpectedCapacity table =>
    "Table " ++ table ++ " uses PAY_PER_REQUEST billing and cannot set read or write capacity"
  | unusableTypeName text => "'" ++ text ++ "' is not a usable type name"
  | invalidEnumValue enum value =>
    "Enum " ++ enum ++ " value '" ++ value ++ "' must be a valid GraphQL name"
  | scalarName name => "Type " ++ name ++ " collides with a built-in scalar"
  | categoryTaken name registered requested =>
    "Type " ++ name ++ " is already registered as " ++ registered.keyword ++
      ", cannot register it as " ++ requested.keyword
  | unknownType name => name ++ " is not a valid Type"
  | wrongCategory owner ownerName member expected =>
    owner.keyword ++ " " ++ ownerName ++ " references " ++ member ++ ", which is not a " ++
      expected.keyword
  | repeatedTable name => "Table " ++ name ++ " is already part of the schema"
  | repeatedField field root => "Field " ++ field ++ " is already defined on " ++ root.typeName
  | rootNotObject root => root.typeName ++ " is not an object type"
  | shapeNeedsArray category =>
    "Type \"" ++ category.keyword ++ "\" is not compatible with props provided"
  | shapeIsArray category =>
    "Only Union and Enum types can be passed as an array, Type: " ++ category.keyword
  | bindingWithoutField operation root =>
    "Resolver " ++ operation ++ " has no field on " ++ root.typeName
  | argumentsDisagree root operation =>
    "Field " ++ root.typeName ++ "." ++ operation ++ " and its resolver disagree on key arguments"
  | cardinalityDisagrees root operation =>
    "Field " ++ root.typeName ++ "." ++ operation ++ " and its resolver disagree on cardinality"
  | fieldWithoutBinding root field => "Field " ++ root.typeName ++ "." ++ field ++ " has no resolver"
  | noTables =>
    "No tables provided. Cannot build API and Database without tables. " ++
      "Please configure parameters or provide 'dynasync.json' config file"
  | settingsForBuiltTable table =>
    "Cannot pass additional table props when using already-instantiated table instance for table " ++
      table
  | missingFile path => "Config file " ++ path ++ " does not exist"
  | notJsonFile path => "File at " ++ path ++ " is not JSON file"
  | unreadableFile path reason => "Failed to read " ++ path ++ ": " ++ reason
  | malformedFile path => "Failed to parse " ++ path

def message (error : Error) : String :=
  match error.kind with
  | .validation => "Validation error: " ++ error.describe
  | .conflict => "Conflict: " ++ error.describe
  | .configuration => "Configuration error: " ++ error.describe

end Error

end TableApi
