import TableApi.Json.Token

/-! Reading JSON documents. The words are taken one by one; the containers still open are kept on a
stack, so that nesting is bounded by the text alone. -/
namespace TableApi.Json

/-- Containers may be nested this deep where their content is kept. -/
def maxDepth : Nat := 127

abbrev ReadMember := Option String × Json

/-- A container whose end is yet to come, with what was read of it, the last first. -/
inductive Container where
  | items (read : List Json)
  /-- Members already read and the name of the one whose value is being read. -/
  | members (read : List ReadMember) (name : Option String)
  deriving Repr

/-- What has to come next. -/
inductive Expecting where
  /-- A value; or the end of an array in which nothing was read. -/
  | value (outer : List Container) (mayClose : Bool)
  /-- The name of a member; or the end of an object in which nothing was read. -/
  | name (outer : List Container) (read : List ReadMember) (mayClose : Bool)
  | colon (outer : List Container) (read : List ReadMember) (name : Option String)
  /-- What may follow a value that is complete. -/
  | continuation (outer : List Container) (value : Json)
  deriving Repr

def closeItems (outer : List Container) (read : List Json) : Json :=
  if outer.length < maxDepth then .array read.reverse else .unreadable

/-- An object with an unreadable name is unreadable as a whole. -/
def closeMembers (outer : List Container) (read : List ReadMember) : Json :=
  if outer.length < maxDepth then
    match read.reverse.mapM fun member => member.1.map (·, member.2) with
    | some members => .object members
    | none => .unreadable
  else .unreadable

def step : Expecting → Token → Option Expecting
  | .value outer _, .scalar value => some (.continuation outer value)
  | .value outer _, .text (some value) => some (.continuation outer (.string value))
  | .value outer _, .text none => some (.continuation outer .unreadable)
  | .value outer _, .openArray => some (.value (.items [] :: outer) true)
  | .value outer _, .openObject => some (.name outer [] true)
  | .value (.items read :: outer) true, .closeArray =>
    some (.continuation outer (closeItems outer read))
  | .name outer read _, .text name => some (.colon outer read name)
  | .name outer read true, .closeObject => some (.continuation outer (closeMembers outer read))
  | .colon outer read name, .colon => some (.value (.members read name :: outer) false)
  | .continuation (.items read :: outer) value, .comma => some (.value (.items (value :: read) :: outer) false)
  | .continuation (.items read :: outer) value, .closeArray =>
    some (.continuation outer (closeItems outer (value :: read)))
  | .continuation (.members read name :: outer) value, .comma =>
    some (.name outer ((name, value) :: read) false)
  | .continuation (.members read name :: outer) value, .closeObject =>
    some (.continuation outer (closeMembers outer ((name, value) :: read)))
  | _, _ => none

def ofTokens? (words : List Token) : Option Json :=
  match words.foldlM step (.value [] false) with
  | some (.continuation [] value) => some value
  | _ => none

/-- The value of a document. Its parts may be unreadable. -/
def parse? (text : String) : Option Json :=
  (tokens text.toList).bind ofTokens?

end TableApi.Json
