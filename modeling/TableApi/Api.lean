import TableApi.Binding
import TableApi.Json.Settings

/-! The API to be provided: its name, its authorization and its data sources. -/
namespace TableApi

/-- One way to authorize a request, with settings that are passed on. -/
structure AuthorizationMode where
  type : String
  settings : Settings
  deriving DecidableEq, Repr

/-- What is known of the user pool of an API. -/
structure UserPool where
  name : Option String
  clientPattern : Option String
  deny : Bool
  deriving DecidableEq, Repr

namespace AuthorizationMode

def ofType (type : String) : AuthorizationMode := ⟨type, []⟩

/-- Authorization by a user pool. Without a name the pool is made for the API. -/
def ofUserPool (id : String) (pool : UserPool) : AuthorizationMode where
  type := "AMAZON_COGNITO_USER_POOLS"
  settings := [("userPoolConfig", .object (Settings.ofMembers
    ([("userPool", .string (pool.name.getD (id ++ "UserPool"))),
      ("defaultAction", .string (if pool.deny then "DENY" else "ALLOW"))] ++
    Json.memberIfSome "appIdClientRegex" .string pool.clientPattern)))]

/-- The settings stand beside the type. -/
def toJson (mode : AuthorizationMode) : Json :=
  .object (("authorizationType", .string mode.type) :: mode.settings)

def ofJson? : Json → Option AuthorizationMode
  | .object members => do
    let type ← match members.filter (·.1 = "authorizationType") with
      | [type] => type.2.string?
      | _ => none
    return ⟨type, ← Json.settings? (.object (members.filter (·.1 ≠ "authorizationType")))⟩
  | _ => none

end AuthorizationMode

structure Authorization where
  default : AuthorizationMode
  additional : List AuthorizationMode
  deriving DecidableEq, Repr

namespace Authorization

/-- A named user pool comes first, and all modes after it. Else the first mode comes first, or a user
pool made for the API when there is no mode. -/
def resolve (id : String) (pool : UserPool) (modes : List AuthorizationMode) : Authorization :=
  match pool.name, modes with
  | none, mode :: rest => ⟨mode, rest⟩
  | _, modes => ⟨.ofUserPool id pool, modes⟩

def toJson (authorization : Authorization) : Json :=
  .object (("defaultAuthorization", authorization.default.toJson) ::
    if authorization.additional.isEmpty then []
    else [("additionalAuthorizationModes",
      .array (authorization.additional.map AuthorizationMode.toJson))])

end Authorization

structure Api where
  name : String
  authorization : Authorization
  /-- Settings of the API that are passed on. -/
  settings : Settings
  deriving DecidableEq, Repr

namespace Api

def ofId (id : String) (authorization : Authorization) (settings : Settings) : Api :=
  ⟨id ++ "-GraphQlApi", authorization, settings⟩

def toJson (api : Api) : Json :=
  .object ([("name", .string api.name), ("xrayEnabled", .bool true),
      ("authorization", api.authorization.toJson)] ++
    if api.settings.isEmpty then [] else [("apiProps", .object api.settings)])

end Api

/-- The storage behind the resolvers of one table. -/
structure DataSource where
  name : String
  table : String
  deriving DecidableEq, Repr

namespace DataSource

def ofTable (table : Table) : DataSource :=
  ⟨table.dataSourceName, table.displayName⟩

def toJson (source : DataSource) : Json :=
  .object [("name", .string source.name), ("tableName", .string source.table)]

end DataSource

end TableApi
