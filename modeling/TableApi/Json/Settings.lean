import TableApi.Json.Record

/-! Free settings, which are passed on without a meaning of their own. Objects among them are kept with
their members sorted by name; of a name given twice the last value stays. -/
namespace TableApi

/-- Members sorted by name, each name once. -/
abbrev Settings := List (String × Json)

namespace Settings

def put (name : String) (value : Json) : Settings → Settings
  | [] => [(name, value)]
  | entry :: rest =>
    if name < entry.1 then (name, value) :: entry :: rest
    else if entry.1 = name then (name, value) :: rest
    else entry :: put name value rest

def ofMembers (members : List (String × Json)) : Settings :=
  members.foldl (fun settings member => put member.1 member.2 settings) []

end Settings

namespace Json

mutual

/-- The value as it is kept; none when a part of it is unreadable. -/
def kept : Json → Option Json
  | .unreadable => none
  | .array items => (keptItems items).map .array
  | .object members => (keptMembers members).map fun members => .object (Settings.ofMembers members)
  | .null => some .null
  | .bool b => some (.bool b)
  | .int n => some (.int n)
  | .double x => some (.double x)
  | .string s => some (.string s)

def keptItems : List Json → Option (List Json)
  | [] => some []
  | item :: items => do return (← item.kept) :: (← keptItems items)

def keptMembers : List (String × Json) → Option (List (String × Json))
  | [] => some []
  | (name, value) :: members => do return (name, ← value.kept) :: (← keptMembers members)

end

def settings? : Json → Option Settings
  | .object members => (keptMembers members).map Settings.ofMembers
  | _ => none

end Json

end TableApi
