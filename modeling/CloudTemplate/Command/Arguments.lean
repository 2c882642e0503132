import CloudTemplate.Command.Basic
import CloudTemplate.NameTable

/-!
# Command lines

A command line has options, the name of a command, and further options and files. An option is
long (`--json`) or short (`-q`); short ones may be written together. An option with a value takes
it from behind an equals sign, from the rest of short options, or from the next word. Behind `--`
there are only files. Words are texts, and so are the paths among them.

Main definitions: `Parsing.words` reads the words of one level, and `Invocation.ofArguments` reads
a whole command line.
-/

namespace CloudTemplate

/-- Why a command line runs no command. -/
inductive UsageFault where
  | help
  | version
  /-- There is no word at all. -/
  | nothingGiven
  | missingCommand
  | missingFile
  | unknownArgument
  | unknownCommand
  | conflict
  | invalidValue
  | needlessValue
deriving DecidableEq, Repr

/-- The status with which the program ends. -/
def UsageFault.exitCode : UsageFault → Nat
  | .help => 0
  | .version => 0
  | _ => 2

/-- What an option does. -/
inductive OptionKind where
  | flag
  /-- It takes a value, which may be empty. -/
  | text
  /-- It takes a value, which may not be empty. -/
  | path
  | help
  | version
deriving DecidableEq, Repr

/-- An option. -/
structure OptionSpec where
  long : String
  short : Option Char
  kind : OptionKind
deriving DecidableEq, Repr

/-- How many files a level takes. -/
inductive FileCount where
  | none
  | one
  | many
deriving DecidableEq, Repr

/-- The options and files of the whole program, or of one of its commands. -/
structure Level where
  options : List OptionSpec
  files : FileCount
  /-- The names of the commands below. -/
  commands : List String

/-- What waits for its values to be complete. -/
inductive Pending where
  | option (spec : OptionSpec) (values : List String)
  | files (paths : List String)
deriving DecidableEq, Repr

/-- What was read at one level. -/
structure Parsing where
  /-- The flags that were given. -/
  flags : List String
  /-- The values of options. -/
  values : List (String × String)
  files : List String
  pending : Option Pending
deriving DecidableEq, Repr

/-- Where the reading of a level ended. -/
inductive LevelEnd where
  | words (p : Parsing)
  /-- A command, with the words behind it. -/
  | command (p : Parsing) (name : String) (rest : List String)

namespace Parsing

/-- Nothing was read yet. -/
def start : Parsing := ⟨[], [], [], none⟩

/-- Whether an option or flag was given. -/
def has (p : Parsing) (name : String) : Bool :=
  p.flags.contains name || Entries.hasName name p.values

/-- Whether anything was given. -/
def isEmpty (p : Parsing) : Bool :=
  p.flags.isEmpty && p.values.isEmpty && p.files.isEmpty

/-- Enter the value of an option, which may be given once. -/
def setValue (p : Parsing) (spec : OptionSpec) (value : String) : Except UsageFault Parsing :=
  if p.has spec.long then .error .conflict
  else if spec.kind = .path && value.isEmpty then .error .invalidValue
  else .ok { p with values := p.values ++ [(spec.long, value)] }

/-- Enter what waits for its values. -/
def settle (p : Parsing) : Except UsageFault Parsing :=
  let settled := { p with pending := none }
  match p.pending with
  | none => .ok settled
  | some (.option spec (value :: _)) => settled.setValue spec value
  | some (.option _ []) => .error .invalidValue
  | some (.files paths) =>
    if paths.any String.isEmpty then .error .invalidValue
    else .ok { settled with files := p.files ++ paths }

/-- Enter an option that takes no value, or ask for help or the version. -/
def setFlag (p : Parsing) (spec : OptionSpec) : Except UsageFault Parsing := do
  let p ← p.settle
  match spec.kind with
  | .help => .error .help
  | .version => .error .version
  | _ => if p.has spec.long then .error .conflict else .ok { p with flags := p.flags ++ [spec.long] }

/-- Enter an option with the value attached to it, or wait for its value. -/
def setOption (p : Parsing) (spec : OptionSpec) (attached : Option String) :
    Except UsageFault Parsing := do
  let p ← p.settle
  match attached with
  | some value => p.setValue spec value
  | none => .ok { p with pending := some (.option spec []) }

/-- Whether an option takes a value. -/
def takesValue (spec : OptionSpec) : Bool :=
  spec.kind = .text || spec.kind = .path

/-- A word that starts with two dashes, without them: a name, and a value behind an equals sign. -/
def splitLong (word : List Char) : List Char × Option (List Char) :=
  let name := word.takeWhile (· ≠ '=')
  match word.drop name.length with
  | _ :: value => (name, some value)
  | [] => (name, none)

/-- Read a long option. -/
def longOption (level : Level) (p : Parsing) (word : List Char) : Except UsageFault Parsing :=
  let (name, value) := splitLong word
  match level.options.find? fun spec => spec.long = String.ofList name with
  | none => .error .unknownArgument
  | some spec =>
    if takesValue spec then p.setOption spec (value.map String.ofList)
    else if value.isSome then .error .needlessValue
    else p.setFlag spec

/-- Read short options that are written together. -/
def shortOptions (level : Level) (p : Parsing) : List Char → Except UsageFault Parsing
  | [] => .ok p
  | c :: rest =>
    match level.options.find? fun spec => spec.short = some c with
    | none => .error .unknownArgument
    | some spec =>
      if takesValue spec then
        let attached :=
          match rest with
          | [] => none
          | '=' :: value => some (String.ofList value)
          | value => some (String.ofList value)
        p.setOption spec attached
      else
        match p.setFlag spec with
        | .error fault => .error fault
        | .ok p => shortOptions level p rest

/-- Whether the next word is the value of an option. -/
def awaitsValue (p : Parsing) : Bool :=
  match p.pending with
  | some (.option _ []) => true
  | _ => false

/-- Whether the latest word was a file. -/
def isInFiles (p : Parsing) : Bool :=
  match p.pending with
  | some (.files _) => true
  | _ => false

/-- Read a word that is neither an option nor a command. -/
def fileWord (level : Level) (isTrailing : Bool) (p : Parsing) (word : String) :
    Except UsageFault Parsing :=
  let isFull :=
    match level.files with
    | .none => true
    | .one => !p.files.isEmpty || p.isInFiles
    | .many => false
  if isFull then
    if level.commands.isEmpty || (isTrailing && level.commands.contains word) then
      .error .unknownArgument
    else .error .unknownCommand
  else
    match p.pending with
    | some (.files paths) => .ok { p with pending := some (.files (paths ++ [word])) }
    | _ => do
      let p ← p.settle
      .ok { p with pending := some (.files [word]) }

/-- Read the words behind two dashes. -/
def trailingWords (level : Level) (p : Parsing) : List String → Except UsageFault Parsing
  | [] => .ok p
  | word :: rest =>
    match p.fileWord level true word with
    | .error fault => .error fault
    | .ok p => trailingWords level p rest

/-- Read the words of a level, up to the name of a command. What waits for its values there is
entered only when the command was read. -/
def words (level : Level) (p : Parsing) : List String → Except UsageFault LevelEnd
  | [] => p.settle.map .words
  | word :: rest =>
    if !p.awaitsValue && !p.isInFiles && level.commands.contains word then .ok (.command p word rest)
    else
      let next : Except UsageFault Parsing :=
        match word.toList with
        | '-' :: '-' :: name => p.longOption level name
        | '-' :: c :: more => p.shortOptions level (c :: more)
        | _ =>
          match p.pending with
          | some (.option spec []) => .ok { p with pending := some (.option spec [word]) }
          | _ => p.fileWord level false word
      if word = "--" then (p.trailingWords level rest).bind fun p => p.settle.map .words
      else
        match next with
        | .error fault => .error fault
        | .ok p => words level p rest

end Parsing

namespace Level

/-- The options that are known at every level. -/
def globalOptions : List OptionSpec :=
  [⟨"verbose", some 'v', .flag⟩, ⟨"quiet", some 'q', .flag⟩, ⟨"config", some 'c', .path⟩,
    ⟨"help", some 'h', .help⟩]

/-- The word that asks for help in place of a command. -/
def helpWord : String := "help"

/-- The names of the commands. -/
def commandNames : List String := ["order", "graph", "import", "validate", "build"]

/-- The level of the whole program. -/
def program : Level :=
  ⟨globalOptions ++ [⟨"version", some 'V', .version⟩], .none, commandNames ++ [helpWord]⟩

/-- The level of a command. -/
def ofCommand (name : String) : Level :=
  let flag (long : String) : OptionSpec := ⟨long, none, .flag⟩
  if name = "order" then ⟨globalOptions ++ [flag "deletion", flag "json"], .one, []⟩
  else if name = "graph" then ⟨globalOptions ++ [⟨"root", some 'r', .text⟩], .one, []⟩
  else if name = "import" then ⟨globalOptions ++ [flag "json", flag "no-recovery"], .one, []⟩
  else if name = "validate" then ⟨globalOptions ++ [⟨"catalog", none, .path⟩], .one, []⟩
  else ⟨globalOptions ++ [⟨"output", some 'o', .path⟩, flag "yaml"], .many, []⟩

end Level

namespace Parsing

/-- The value of an option. -/
def value? (p : Parsing) (name : String) : Option String :=
  Entries.lookup name p.values

/-- The path that is the value of an option. -/
def path? (p : Parsing) (name : String) : Option FilePath :=
  (p.value? name).map .ofText

/-- Check what the flags of a level say together. -/
def checkConflicts (p : Parsing) : Except UsageFault Unit :=
  if p.has "verbose" && p.has "quiet" then .error .conflict else .ok ()

/-- The command with a name and what was given with it. -/
def command (name file : String) (p : Parsing) : Command :=
  if name = "order" then .order file (p.has "deletion") (p.has "json")
  else if name = "graph" then .graph file (p.value? "root")
  else if name = "import" then .importTemplate file (p.has "json") (p.has "no-recovery")
  else if name = "validate" then .validate file (p.path? "catalog")
  else .build (p.files.map .ofText) (p.path? "output") (p.has "yaml")

/-- Read the words behind the name of a command. -/
def commandWords (name : String) (rest : List String) :
    Except UsageFault (Command × Option FilePath) := do
  match ← start.words (Level.ofCommand name) rest with
  | .command .. => .error .unknownCommand
  | .words p => do
    p.checkConflicts
    match p.files with
    | [] => .error .missingFile
    | file :: _ => return (p.command name file, p.path? "config")

/-- What is said about the words behind `help`: at most one of them names a command. -/
def helpWords : List String → UsageFault
  | [] => .help
  | [name] => if Level.program.commands.contains name then .help else .unknownCommand
  | _ => .unknownCommand

end Parsing

/-- Read a command line. A configuration file that is named behind the command counts more than
one that is named before it. -/
def Invocation.ofArguments (arguments : List String) : Except UsageFault Invocation := do
  match ← Parsing.start.words Level.program arguments with
  | .words p => .error (if p.isEmpty then .nothingGiven else .missingCommand)
  | .command p name rest =>
    if name = Level.helpWord then .error (Parsing.helpWords rest)
    else do
      let (command, configuration) ← Parsing.commandWords name rest
      let p ← p.settle
      p.checkConflicts
      return ⟨command, configuration.or (p.path? "config")⟩

end CloudTemplate
