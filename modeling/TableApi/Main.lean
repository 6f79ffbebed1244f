import TableApi.CommandLine.Run

/-! The program on the files of the system. -/
namespace TableApi

/-- The reason of a failure in the words of the system. -/
def systemReason : IO.Error → String
  | .alreadyExists _ code details | .noFileOrDirectory _ code details
  | .inappropriateType _ code details | .permissionDenied _ code details
  | .invalidArgument _ code details | .resourceExhausted _ code details
  | .resourceBusy code details | .otherError code details =>
    details ++ " (os error " ++ toString code ++ ")"
  | error => toString error

def attempt (action : IO α) : IO (Except String α) := do
  match ← action.toBaseIO with
  | .ok value => return .ok value
  | .error error => return .error (systemReason error)

/-- Makes one folder after another, each in the one before; those that are there already will do. -/
def makeFolders (folder : String) : List String → IO Unit
  | [] => return
  | name :: rest => do
    let path := Path.join folder name
    match ← (IO.FS.createDir path).toBaseIO with
    | .ok () | .error (.alreadyExists ..) => makeFolders path rest
    | .error error => throw error

/-- Makes a folder within folders that are made before it. -/
def makeFolder (path : String) : IO Unit := do
  if ← ((← IO.currentDir) / path).isDir then return
  makeFolders (if path.startsWith "/" then "/" else "") (Path.parts path).dropLast
  IO.FS.createDir path

def readText (path : String) : IO (Except String String) := do
  match ← attempt (IO.FS.readBinFile path) with
  | .error reason => return .error reason
  | .ok bytes =>
    match String.fromUTF8? bytes with
    | some text => return .ok text
    | none => return .error FileTree.notText

def systemFiles : FileAccess IO where
  isThere path := do
    if path = "" then return false
    ((← IO.currentDir) / path).pathExists
  read := readText
  createFolder path := attempt (makeFolder path)
  write path content := attempt (IO.FS.writeFile path content)

end TableApi

open TableApi

def main (arguments : List String) : IO UInt32 := do
  let folder ← IO.currentDir
  let outcome ← CommandLine.run systemFiles folder.toString arguments (← IO.getEnv "DYNASYNC_CONFIG")
  IO.print outcome.stdout
  match outcome.failure with
  | some failure => IO.eprintln ("Error: " ++ failure.message)
  | none =>
    if outcome.exit = 2 then IO.eprint CommandLine.helpText
  return outcome.exit.toUInt32
