import TableApi.Text.Split

/-! The arguments of the command line. -/
namespace TableApi.CommandLine

inductive Command where
  | synth | schema
  deriving DecidableEq, Repr

/-- Options that take a value. -/
inductive OptionName where
  | config | label | apiId | out
  deriving DecidableEq, Repr

inductive Flag where
  | silent | verbose | stdout
  deriving DecidableEq, Repr

/-- Options and flags that were read so far. -/
structure Given where
  values : List (OptionName × String)
  flags : List Flag
  deriving DecidableEq, Repr

inductive Request where
  | run (command : Command) (given : Given)
  | help
  | version
  deriving DecidableEq, Repr

namespace Command

def ofWord? : String → Option Command
  | "synth" => some synth
  | "schema" => some schema
  | _ => none

def longOption? : Command → String → Option OptionName
  | _, "config" => some .config
  | _, "label" => some .label
  | _, "api-id" => some .apiId
  | synth, "out" => some .out
  | _, _ => none

def shortOption? : Command → Char → Option OptionName
  | _, 'c' => some .config
  | synth, 'o' => some .out
  | _, _ => none

end Command

/-- The flags that stand before or behind the command. -/
def globalFlag? : String → Option Flag
  | "silent" => some .silent
  | "verbose" => some .verbose
  | _ => none

def Command.flag? : Command → String → Option Flag
  | synth, "stdout" => some .stdout
  | _, word => globalFlag? word

namespace Given

def nothing : Given := ⟨[], []⟩

/-- An option is given once, and a path is not empty. -/
def addValue (given : Given) (option : OptionName) (value : String) : Option Given :=
  if (given.values.lookup option).isSome then none
  else if value = "" ∧ (option = .config ∨ option = .out) then none
  else some { given with values := given.values ++ [(option, value)] }

def addFlag (given : Given) (flag : Flag) : Option Given :=
  if given.flags.contains flag then none else some { given with flags := given.flags ++ [flag] }

def value? (given : Given) (option : OptionName) : Option String :=
  given.values.lookup option

def has (given : Given) (flag : Flag) : Bool :=
  given.flags.contains flag

/-- Both together, as flags may stand before and behind the command. -/
def withFlags (given : Given) (flags : List Flag) : Given :=
  { given with flags := given.flags ++ flags.filter (!given.flags.contains ·) }

end Given

/-- How an argument is written. -/
inductive Form where
  /-- Two hyphens, a name, maybe a value behind an equals sign. -/
  | long (name : String) (value : Option String)
  /-- One hyphen, a letter and what is attached to it. -/
  | short (letter : Char) (attached : List Char)
  /-- Two hyphens alone: only plain words follow. -/
  | terminator
  | word
  deriving DecidableEq, Repr

def Form.of (argument : String) : Form :=
  match argument.toList with
  | ['-', '-'] => .terminator
  | '-' :: '-' :: rest =>
    let (name, value) := Text.splitOnce '=' rest
    .long (String.ofList name) (value.map String.ofList)
  | '-' :: letter :: attached => .short letter attached
  | _ => .word

/-- The value that is attached to a letter, with or without an equals sign. -/
def attachedValue? : List Char → Option String
  | [] => none
  | '=' :: value => some (String.ofList value)
  | value => some (String.ofList value)

/-- What was found at the start of the arguments. -/
inductive Found where
  | option (name : OptionName) (value : Option String)
  | flag (flag : Flag)
  | help
  | version
  | terminator

/-- Reads one argument behind a command; none when it makes no sense there. -/
def Command.read? (command : Command) (argument : String) : Option Found :=
  match Form.of argument with
  | .long "help" none => some .help
  | .long name value =>
    match command.longOption? name, command.flag? name, value with
    | some option, _, value => some (.option option value)
    | none, some flag, none => some (.flag flag)
    | none, _, _ => none
  | .short 'h' _ => some .help
  | .short letter attached =>
    (command.shortOption? letter).map fun option => .option option (attachedValue? attached)
  | .terminator => some .terminator
  | .word => none

/-- Reads one argument before the command. -/
def readGlobal? (argument : String) : Option Found :=
  match Form.of argument with
  | .long "help" none | .short 'h' _ => some .help
  | .long "version" none | .short 'V' _ => some .version
  | .long name none => (globalFlag? name).map .flag
  | _ => none

/-- Reads what follows a command; none when it makes no sense. -/
def Command.parse? (command : Command) (given : Given) : List String → Option Request
  | [] => some (.run command given)
  | argument :: rest =>
    match command.read? argument with
    | none => none
    | some .help => some .help
    | some .version => some .version
    | some .terminator => if rest.isEmpty then some (.run command given) else none
    | some (.flag flag) => (given.addFlag flag).bind (parse? command · rest)
    | some (.option option (some value)) => (given.addValue option value).bind (parse? command · rest)
    | some (.option option none) =>
      match rest with
      | [] => none
      | value :: rest =>
        if Form.of value = .word then (given.addValue option value).bind (parse? command · rest)
        else none

def parseHelp? : List String → Option Request
  | [] => some .help
  | [topic] => if (Command.ofWord? topic).isSome || topic = "help" then some .help else none
  | _ => none

/-- Reads all arguments; none when they make no sense. -/
def parse? (given : Given) : List String → Option Request
  | [] => none
  | "help" :: topics => parseHelp? topics
  | argument :: rest =>
    match Command.ofWord? argument with
    | some command =>
      match command.parse? .nothing rest with
      | some (.run command own) => some (.run command (own.withFlags given.flags))
      | other => other
    | none =>
      match readGlobal? argument with
      | some .help => some .help
      | some .version => some .version
      | some (.flag flag) => (given.addFlag flag).bind (parse? · rest)
      | _ => none

/-- The arguments together with the variable that names a configuration file where no option does. -/
def Request.withEnvironment (configVariable : Option String) : Request → Option Request
  | .run command given =>
    match configVariable with
    | some path =>
      if (given.value? .config).isSome then some (.run command given)
      else (given.addValue .config path).map (.run command)
    | none => some (.run command given)
  | other => some other

end TableApi.CommandLine
