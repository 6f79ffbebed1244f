import TableApi.Json.Basic

/-! The root types of a schema and the categories of type definitions. -/
namespace TableApi

inductive RootType where
  | query | mutation | subscription
  deriving DecidableEq, Repr

namespace RootType

def all : List RootType := [query, mutation, subscription]

/-- The name of the root's object type. -/
def typeName : RootType → String
  | query => "Query"
  | mutation => "Mutation"
  | subscription => "Subscription"

/-- The word for the root in the schema block. -/
def keyword : RootType → String
  | query => "query"
  | mutation => "mutation"
  | subscription => "subscription"

theorem mem_all (root : RootType) : root ∈ all := by cases root <;> decide

def toJson (root : RootType) : Json := .string root.typeName

end RootType

inductive TypeCategory where
  | type | input | interface | union | enum
  deriving DecidableEq, Repr

namespace TypeCategory

def keyword : TypeCategory → String
  | type => "type"
  | input => "input"
  | interface => "interface"
  | union => "union"
  | enum => "enum"

def toJson (category : TypeCategory) : Json := .string category.keyword

end TypeCategory

end TableApi
