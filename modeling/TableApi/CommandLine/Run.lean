import TableApi.Artifacts
import TableApi.CommandLine.Arguments
import TableApi.ConfigFile
import TableApi.Text.Terminal

/-! What the commands do with files, and what they print. -/
namespace TableApi.CommandLine

inductive Failure where
  | refused (error : Error)
  | folder (path reason : String)
  | artifact (path reason : String)
  deriving DecidableEq, Repr

def Failure.message : Failure → String
  | refused error => error.message
  | folder path reason => "Failed to create output directory " ++ path ++ "\n\nCaused by:\n    " ++ reason
  | artifact path reason => "Failed to write " ++ path ++ "\n\nCaused by:\n    " ++ reason

/-- Exit code, printed text and the failure that ended the run. -/
structure Outcome where
  exit : UInt8
  stdout : String
  failure : Option Failure
  deriving DecidableEq, Repr

namespace Outcome

def success (stdout : String) : Outcome := ⟨0, stdout, none⟩

def failed (stdout : String) (failure : Failure) : Outcome := ⟨1, stdout, some failure⟩

/-- Arguments that make no sense. -/
def misuse : Outcome := ⟨2, "", none⟩

end Outcome

def versionText : String := "dynasync 0.0.0\n"

def helpText : String :=
  "Synthesize a GraphQL schema, resolvers and storage tables\n\n" ++
  "Usage: dynasync [--silent] [--verbose] <synth|schema> [OPTIONS]\n\n" ++
  "Options of both commands:\n" ++
  "  -c, --config <PATH>    Configuration document (default: dynasync.json; env: DYNASYNC_CONFIG)\n" ++
  "      --label <LABEL>    Label that stands before every table name\n" ++
  "      --api-id <API_ID>  Name of the API (default: Dynasync)\n\n" ++
  "Options of synth:\n" ++
  "  -o, --out <OUT>        Folder of the artifacts (default: dynasync-out)\n" ++
  "      --stdout           Print the schema and write nothing\n"

/-- A printed line, as it is without a terminal. -/
def line (text : String) : String :=
  Text.withoutEscapes text ++ "\n"

def planText (tables : List TableDescriptor) : String :=
  line "Tables:" ++
    String.join ((tables.flatMap TableDescriptor.planLines).map fun text => line ("  " ++ text)) ++
    line ""

def writtenText (paths : List String) (output : Output) : String :=
  String.join (paths.map fun path => line ("Wrote " ++ path)) ++
    line ("Synthesized " ++ toString output.bindings.length ++ " resolvers across " ++
      toString output.tables.length ++ " tables")

variable {m : Type → Type} [Monad m]

/-- Writes files into a folder, one after another until one fails; gives their paths. -/
def writeAll (files : FileAccess m) (folder : String) :
    List (String × String) → m (Except Failure (List String))
  | [] => return .ok []
  | (name, content) :: rest => do
    let path := Path.join folder name
    match ← files.write path content with
    | .error reason => return .error (.artifact path reason)
    | .ok () => return (← writeAll files folder rest).map (path :: ·)

def writeArtifacts (files : FileAccess m) (folder : String) (output : Output) :
    m (Except Failure (List String)) := do
  match ← files.createFolder folder with
  | .error reason => return .error (.folder folder reason)
  | .ok () => writeAll files folder output.artifacts

/-- Reads the configuration and runs a pass over it. -/
def runPass (files : FileAccess m) (folder : String) (given : Given) : m (Except Error Output) := do
  match ← Config.find files (given.value? .config) folder with
  | .error error => return .error error
  | .ok config =>
    return synthesize ((given.value? .apiId).getD "Dynasync") config (given.value? .label)

def runSynth (files : FileAccess m) (given : Given) (output : Output) : m Outcome := do
  let silent := given.has .silent
  let announced := if silent then "" else planText output.tables
  match ← writeArtifacts files ((given.value? .out).getD "dynasync-out") output with
  | .error failure => return .failed announced failure
  | .ok paths => return .success (if silent then "" else announced ++ writtenText paths output)

def runCommand (files : FileAccess m) (folder : String) (command : Command) (given : Given) :
    m Outcome := do
  match ← runPass files folder given with
  | .error error => return .failed "" (.refused error)
  | .ok output =>
    if command = .schema ∨ given.has .stdout then return .success output.schema
    else runSynth files given output

/-- Runs the program in a folder, with its arguments and the variable that may name a configuration
file. -/
def run (files : FileAccess m) (folder : String) (arguments : List String)
    (configVariable : Option String) : m Outcome :=
  match (parse? .nothing arguments).bind (·.withEnvironment configVariable) with
  | none => return .misuse
  | some .help => return .success helpText
  | some .version => return .success versionText
  | some (.run command given) => runCommand files folder command given

end TableApi.CommandLine
