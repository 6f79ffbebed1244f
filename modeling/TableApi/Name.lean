import TableApi.Text.LetterCase
import TableApi.Text.Split

/-! Legal GraphQL names and the key under which a type name is looked up. -/
namespace TableApi

def isNameStart (c : Char) : Bool :=
  c = '_' || c.isAlpha

def isNameChar (c : Char) : Bool :=
  c = '_' || c.isAlphanum

/-- A letter or an underscore, then letters, digits and underscores, all of ASCII. -/
def isLegalName (name : String) : Bool :=
  match name.toList with
  | [] => false
  | c :: cs => isNameStart c && cs.all isNameChar

/-- A later word starts in upper case and goes on in lower case. -/
def recaseWord : List Char → List Char
  | [] => []
  | c :: cs => Text.upperChar c ++ Text.lower cs

def lookupKeyChars (cs : List Char) : List Char :=
  let (first, later) := Text.split '_' cs
  Text.lower first ++ later.flatMap recaseWord

/-- Names with one key name the same type: words are told apart by underscores and not by case. -/
def lookupKey (name : String) : String :=
  String.ofList (lookupKeyChars name.toList)

end TableApi
