import TableApi.Config
import TableApi.Files
import TableApi.Json.Reader

/-! Configuration documents in files. -/
namespace TableApi.Config

def parse? (text : String) : Option Config :=
  (Json.parse? text).bind ofJson?

def defaultFile : String := "dynasync.json"

variable {m : Type → Type} [Monad m]

def readFile (files : FileAccess m) (path : String) : m (Except Error Config) := do
  match ← files.read path with
  | .error reason => return .error (.unreadableFile path reason)
  | .ok text =>
    match parse? text with
    | some config => return .ok config
    | none => return .error (.malformedFile path)

/-- Reads a file that was named; its extension has to hold `json`. -/
def load (files : FileAccess m) (path : String) : m (Except Error Config) := do
  if !(← files.isThere path) then return .error (.missingFile path)
  match Path.extension? path with
  | some extension =>
    if Text.hasInside "json".toList extension.toList then readFile files path
    else return .error (.notJsonFile path)
  | none => return .error (.notJsonFile path)

/-- The file that was named, else the default file of the folder if there is one, else nothing. -/
def find (files : FileAccess m) (named : Option String) (folder : String) : m (Except Error Config) := do
  match named with
  | some path => load files path
  | none =>
    let path := Path.join folder defaultFile
    if ← files.isThere path then readFile files path else return .ok .empty

end TableApi.Config
