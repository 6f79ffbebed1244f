import TableApi.Schema.TypeDefinition

/-! The types of a schema in the order of their registration, found under the lookup keys of their
names. -/
namespace TableApi

structure Registry where
  /-- From lookup keys to definitions. -/
  types : OrderedMap TypeDefinition
  deriving DecidableEq, Repr

namespace Registry

def empty : Registry := ⟨.empty⟩

def definitions (registry : Registry) : List TypeDefinition :=
  registry.types.entries.map Prod.snd

def get? (registry : Registry) (name : String) : Option TypeDefinition :=
  registry.types.get? (lookupKey name)

def contains (registry : Registry) (name : String) : Bool :=
  registry.types.contains (lookupKey name)

/-- Enters a definition and gives the one that now goes by its name. A name that is registered keeps its
definition, and must not change its category; names of scalars are refused. -/
def register (registry : Registry) (definition : TypeDefinition) :
    Except Error (TypeDefinition × Registry) :=
  if (Scalar.ofName? definition.name).isSome then .error (.scalarName definition.name)
  else
    match registry.get? definition.name with
    | some existing =>
      if existing.category = definition.category then .ok (existing, registry)
      else .error (.categoryTaken existing.name existing.category definition.category)
    | none => .ok (definition, ⟨registry.types.insert (lookupKey definition.name) definition⟩)

def addField (registry : Registry) (name : String) (field : FieldDefinition) : Registry :=
  ⟨registry.types.modify (lookupKey name) (·.addField field)⟩

/-- The name under which a type is rendered. -/
def resolve (registry : Registry) (name : String) : Except Error String :=
  match Scalar.ofName? name with
  | some scalar => .ok scalar.render
  | none =>
    match registry.get? name with
    | some definition => .ok definition.name
    | none => .error (.unknownType name)

end Registry

end TableApi
