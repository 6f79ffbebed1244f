import TableApi.Text.Split

/-! File paths with slashes. -/
namespace TableApi.Path

/-- The parts between slashes, empty ones and points for the folder itself included. -/
def rawParts (path : String) : List String :=
  let (first, later) := Text.split '/' path.toList
  (first :: later).map String.ofList

/-- The parts that lead somewhere. -/
def parts (path : String) : List String :=
  (rawParts path).filter fun part => part ≠ "" ∧ part ≠ "."

/-- Whether a path is written as that of a folder. -/
def endsAsFolder (path : String) : Bool :=
  match (rawParts path).getLast? with
  | some part => part = "" || part = "."
  | none => true

/-- Whether the last part that is not empty is the point for the folder itself. -/
def endsInPoint (path : String) : Bool :=
  ((rawParts path).filter (· ≠ "")).getLast? = some "."

/-- What follows the last point of the file's name; a point in front starts no extension. -/
def extension? (path : String) : Option String :=
  match (parts path).getLast? with
  | none => none
  | some ".." => none
  | some name =>
    let (last, before) := Text.splitOnce '.' name.toList.reverse
    match before with
    | none | some [] => none
    | some _ => some (String.ofList last.reverse)

/-- The path of a name within a folder. -/
def join (folder name : String) : String :=
  if folder = "" then name
  else if folder.toList.getLast? = some '/' then folder ++ name
  else folder ++ "/" ++ name

end TableApi.Path
