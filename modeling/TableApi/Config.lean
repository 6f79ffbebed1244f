import TableApi.Api
import TableApi.Schema.Auxiliary

/-! Configurations: tables, auxiliary types and API settings, from documents or put together. -/
namespace TableApi

inductive TableEntry where
  | declared (declaration : TableDeclaration)
  | built (table : Table)
  deriving DecidableEq, Repr

namespace TableEntry

def ofJson? : Json → Option TableEntry :=
  Json.keeping fun value => (TableDeclaration.ofJson? value).map declared

end TableEntry

structure Config where
  tables : List TableEntry
  types : AuxiliaryTypes
  userPool : Option String
  userPoolPattern : Option String
  userPoolDeny : Bool
  modes : List AuthorizationMode
  apiSettings : Settings
  /-- For declared tables without settings of their own. -/
  tableSettings : Option TableSettings
  deleteTablesWithStack : Bool
  deriving DecidableEq, Repr

namespace Config

def empty : Config := ⟨[], .empty, none, none, false, [], [], none, false⟩

instance : Inhabited Config := ⟨empty⟩

/-- The later configuration counts where both say something; tables and types come together. -/
def merge (earlier later : Config) : Config where
  tables := earlier.tables ++ later.tables
  types := earlier.types.merge later.types
  userPool := later.userPool <|> earlier.userPool
  userPoolPattern := later.userPoolPattern <|> earlier.userPoolPattern
  userPoolDeny := later.userPoolDeny || earlier.userPoolDeny
  modes := if later.modes.isEmpty then earlier.modes else later.modes
  apiSettings := if later.apiSettings.isEmpty then earlier.apiSettings else later.apiSettings
  tableSettings := later.tableSettings <|> earlier.tableSettings
  deleteTablesWithStack := later.deleteTablesWithStack || earlier.deleteTablesWithStack

def authorization (config : Config) (id : String) : Authorization :=
  .resolve id ⟨config.userPool, config.userPoolPattern, config.userPoolDeny⟩ config.modes

/-- The settings of a declared table: its own, else those of the configuration. -/
def settingsFor (config : Config) (declaration : TableDeclaration) : Option TableSettings :=
  let settings := declaration.settings <|> config.tableSettings
  if config.deleteTablesWithStack then some ((settings.getD .default).withRemoval .destroy)
  else settings

def buildTable (config : Config) (label : Option String) : TableEntry → Except Error Table
  | .declared declaration =>
    Table.ofDeclaration { declaration with settings := config.settingsFor declaration } label
  | .built table =>
    if config.tableSettings.isSome then .error (.settingsForBuiltTable table.baseName)
    else if config.deleteTablesWithStack then
      .ok (table.withSettings (table.settings.withRemoval .destroy))
    else .ok table

/-- All tables in order. There has to be one. -/
def buildTables (config : Config) (label : Option String) : Except Error (List Table) :=
  if config.tables.isEmpty then .error .noTables
  else config.tables.mapM (config.buildTable label)

def ofJson? (value : Json) : Option Config :=
  match value.slots [["tables"], ["types"], ["userPool"], ["userPoolRegex"], ["userPoolDeny"],
    ["auth"], ["apiProps"], ["tableProps"], ["deleteTablesWithStack"]] with
  | some [tables, types, pool, pattern, deny, modes, api, settings, delete] => do
    return {
      tables := ← Json.defaulted [] (Json.list? TableEntry.ofJson?) tables
      types := ← Json.defaulted .empty AuxiliaryTypes.ofJson? types
      userPool := ← Json.optional Json.string? pool
      userPoolPattern := ← Json.optional Json.string? pattern
      userPoolDeny := ← Json.defaulted false Json.bool? deny
      modes := ← Json.defaulted [] (Json.list? AuthorizationMode.ofJson?) modes
      apiSettings := ← Json.defaulted [] Json.settings? api
      tableSettings := ← Json.optional TableSettings.ofJson? settings
      deleteTablesWithStack := ← Json.defaulted false Json.bool? delete }
  | _ => none

end Config

end TableApi
