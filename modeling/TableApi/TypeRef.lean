import TableApi.Name
import TableApi.Text.Blank

/-! References to types: a name or a list of one name, each possibly required. Lists do not nest. -/
namespace TableApi

inductive TypeRef where
  | single (name : String) (required : Bool)
  | list (name : String) (itemRequired required : Bool)
  deriving DecidableEq, Repr

namespace TypeRef

def name : TypeRef → String
  | single name _ => name
  | list name _ _ => name

def isList : TypeRef → Bool
  | single _ _ => false
  | list _ _ _ => true

/-- Whether the named type, alone or as an item, is required. -/
def isRequired : TypeRef → Bool
  | single _ required => required
  | list _ itemRequired _ => itemRequired

def isRequiredList : TypeRef → Bool
  | single _ _ => false
  | list _ _ required => required

def named (name : String) : TypeRef := single name false

def listOf (name : String) : TypeRef := list name false false

/-- Takes off an exclamation mark at the end and the white space before it. -/
def splitMark (cs : List Char) : List Char × Bool :=
  match cs.reverse with
  | '!' :: rest => (Text.trimEnd rest.reverse, true)
  | _ => (cs, false)

/-- What stands between brackets, without white space at its ends. -/
def bracketed? (cs : List Char) : Option (List Char) :=
  match cs.reverse with
  | ']' :: rest => some (Text.trim rest.reverse)
  | _ => none

def legalName? (cs : List Char) : Option String :=
  let name := String.ofList cs
  if isLegalName name then some name else none

/-- Reads `Name`, `Name!`, `[Name]`, `[Name!]`, `[Name]!` or `[Name!]!`, with white space around every
part. -/
def parse? (text : String) : Option TypeRef :=
  match splitMark (Text.trim text.toList) with
  | ('[' :: inner, required) => do
    let (item, itemRequired) := splitMark (← bracketed? inner)
    return list (← legalName? item) itemRequired required
  | (body, required) => do return single (← legalName? body) required

def mark (required : Bool) : String :=
  if required then "!" else ""

/-- The reference with another name in place of its own. -/
def renderAs (ref : TypeRef) (name : String) : String :=
  match ref with
  | single _ required => name ++ mark required
  | list _ itemRequired required => "[" ++ name ++ mark itemRequired ++ "]" ++ mark required

def render (ref : TypeRef) : String :=
  ref.renderAs ref.name

end TypeRef

end TableApi
