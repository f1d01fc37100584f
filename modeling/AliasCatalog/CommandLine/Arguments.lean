import AliasCatalog.Kind

/-!
# Command line arguments

Options stand before or after the command, long (`--input FILE`, `--input=FILE`) or short
(`-i FILE`, `-iFILE`, `-i=FILE`); short flags may be joined (`-vd`).  A lone `--` ends the options.
An option may be given once on each side of the command, and the one after the command wins.  The
first argument that cannot be used decides the refusal.
-/

namespace AliasCatalog.CommandLine

inductive Switch where
  | verbose
  | debug
  | help
  | config
  | name
  | input
  | format
  | kind
  deriving DecidableEq, Repr

namespace Switch

/-- The long name of an option. -/
def long : Switch → String
  | verbose => "verbose"
  | debug => "debug"
  | help => "help"
  | config => "config"
  | name => "name"
  | input => "input"
  | format => "format"
  | kind => "kind"

/-- The letter of an option: the first of its long name. -/
def short : Switch → Char
  | verbose => 'v'
  | debug => 'd'
  | help => 'h'
  | config => 'c'
  | name => 'n'
  | input => 'i'
  | format => 'f'
  | kind => 'k'

def takesValue : Switch → Bool
  | verbose | debug | help => false
  | config | name | input | format | kind => true

end Switch

inductive Command where
  | plan
  | resolve
  | fingerprint
  deriving DecidableEq, Repr

namespace Command

def all : List Command :=
  [plan, resolve, fingerprint]

def name : Command → String
  | plan => "plan"
  | resolve => "resolve"
  | fingerprint => "fingerprint"

def ofName? (text : String) : Option Command :=
  all.find? (·.name == text)

end Command

/-- The forms in which a plan is printed. -/
inductive Format where
  | json
  | outline
  deriving DecidableEq, Repr

def Format.ofName? : String → Option Format
  | "json" => some .json
  | "outline" => some .outline
  | _ => none

/-- Why arguments lead to no task. -/
inductive Refusal where
  /-- Help was asked for. -/
  | help
  /-- The arguments make no sense. -/
  | usage
  deriving DecidableEq, Repr

/-- One use of the command line, as far as it was read: the options with their values in order, and
the other arguments. -/
structure Given where
  switches : List (Switch × String)
  operands : List String
  deriving DecidableEq, Repr

namespace Given

/-- Nothing given. -/
def start : Given := ⟨[], []⟩

def value? (given : Given) (switch : Switch) : Option String :=
  given.switches.lookup switch

/-- Is a text a possible value of an option?  A path may not be empty. -/
def accepts : Switch → String → Bool
  | .config, value => !value.isEmpty
  | .input, value => !value.isEmpty
  | .format, value => (Format.ofName? value).isSome
  | .kind, value => (Kind.ofName? value).isSome
  | _, _ => true

/-- Adds an option that was not given before. -/
def add (given : Given) (switch : Switch) (value : String) : Except Refusal Given :=
  if switch = .help then .error .help
  else if (given.value? switch).isSome || !accepts switch value then .error .usage
  else .ok { given with switches := given.switches ++ [(switch, value)] }

/-- Adds an argument that is no option; there may be at most `room` of them. -/
def addOperand (room : Nat) (given : Given) (text : String) : Except Refusal Given :=
  if given.operands.length < room then
    .ok { given with operands := given.operands ++ [text] }
  else .error .usage

end Given

/-- The form of an argument. -/
inductive Form where
  /-- `--` -/
  | endOfOptions
  /-- `--name` or `--name=value` -/
  | long (name : String) (value : Option String)
  /-- `-` with characters after it -/
  | short (characters : List Char)
  /-- Anything else, a lone `-` included. -/
  | plain
  deriving DecidableEq, Repr

/-- The form of an argument is told by its first characters. -/
def Form.of (argument : String) : Form :=
  match argument.toList with
  | ['-', '-'] => .endOfOptions
  | '-' :: '-' :: rest =>
    let value := rest.dropWhile (· != '=')
    .long (String.ofList (rest.takeWhile (· != '=')))
      (if value.isEmpty then none else some (String.ofList (value.drop 1)))
  | '-' :: c :: rest => .short (c :: rest)
  | _ => .plain

/-- Reads a cluster of short options.  The second part is an option that still needs a value. -/
def readShort (allowed : List Switch) (given : Given) :
    List Char → Except Refusal (Given × Option Switch)
  | [] => .ok (given, none)
  | c :: rest =>
    match allowed.find? (·.short == c) with
    | none => .error .usage
    | some switch =>
      if switch.takesValue then
        match rest with
        | [] => .ok (given, some switch)
        | '=' :: value => do
          let given ← given.add switch (String.ofList value)
          return (given, none)
        | value => do
          let given ← given.add switch (String.ofList value)
          return (given, none)
      else do
        let given ← given.add switch ""
        readShort allowed given rest

/-- Reads a long option.  The second part is an option that still needs a value. -/
def readLong (allowed : List Switch) (given : Given) (name : String) (value : Option String) :
    Except Refusal (Given × Option Switch) :=
  match allowed.find? (·.long == name), value with
  | none, _ => .error .usage
  | some switch, some value =>
    if switch.takesValue then do
      let given ← given.add switch value
      return (given, none)
    else .error .usage
  | some switch, none =>
    if switch.takesValue then .ok (given, some switch)
    else do
      let given ← given.add switch ""
      return (given, none)

/-- Reads arguments.  `pending` is an option that needs a value, `allowed` are the options that may
occur, `room` is the number of other arguments; with `stop` the first of those ends the reading.  The
second part are the arguments that are left. -/
def readArguments (allowed : List Switch) (room : Nat) (stop : Bool) :
    Given → Option Switch → List String → Except Refusal (Given × List String)
  | given, none, [] => .ok (given, [])
  | _, some _, [] => .error .usage
  | given, some switch, argument :: rest =>
    match Form.of argument with
    | .plain => do
      let given ← given.add switch argument
      readArguments allowed room stop given none rest
    | _ => .error .usage
  | given, none, argument :: rest =>
    match Form.of argument with
    | .endOfOptions => do
      let given ← rest.foldlM (Given.addOperand room) given
      return (given, [])
    | .long name value => do
      let (given, pending) ← readLong allowed given name value
      readArguments allowed room stop given pending rest
    | .short characters => do
      let (given, pending) ← readShort allowed given characters
      readArguments allowed room stop given pending rest
    | .plain =>
      if stop then .ok (given, argument :: rest)
      else do
        let given ← given.addOperand room argument
        readArguments allowed room stop given none rest

/-- What is to be done with a catalog. -/
inductive Task where
  | plan (format : Format)
  | resolve (kind : Kind) (name : String)
  | fingerprint
  deriving DecidableEq, Repr

/-- One run of the program. -/
structure Invocation where
  task : Task
  /-- The file of declarations. -/
  input : String
  /-- The file of options, if one is given. -/
  config : Option String
  /-- The name of the catalog, if one is given. -/
  name : Option String
  deriving DecidableEq, Repr

/-- The options that may stand on both sides of the command. -/
def globalSwitches : List Switch :=
  [.verbose, .debug, .config, .name, .help]

/-- The options of a command. -/
def Command.switches : Command → List Switch
  | plan => [.input, .format]
  | resolve => [.input, .kind]
  | fingerprint => [.input]

/-- The number of arguments of a command that are no options. -/
def Command.room : Command → Nat
  | resolve => 1
  | plan | fingerprint => 0

/-- The task of a command with its options. -/
def Command.task? (command : Command) (given : Given) : Option Task :=
  match command with
  | plan => (Format.ofName? ((given.value? .format).getD "outline")).map .plan
  | resolve =>
    match Kind.ofName? ((given.value? .kind).getD "library"), given.operands with
    | some kind, [name] => some (.resolve kind name)
    | _, _ => none
  | fingerprint => some .fingerprint

/-- The invocation of a command; `before` are the options in front of it. -/
def Command.invocation (command : Command) (before after : Given) (inherited : Option String) :
    Except Refusal Invocation :=
  match command.task? after, after.value? .input with
  | some task, some input =>
    let latest (switch : Switch) := (after.value? switch).or (before.value? switch)
    .ok ⟨task, input, latest .config, (latest .name).or inherited⟩
  | _, _ => .error .usage

/-- Reads the arguments of a run.  `inherited` is the catalog name set outside the command line,
which counts where none is given. -/
def Invocation.parse (inherited : Option String) (arguments : List String) :
    Except Refusal Invocation := do
  let (before, rest) ← readArguments globalSwitches 0 true .start none arguments
  match rest with
  | [] => .error .usage
  | "help" :: names =>
    if names.length ≤ 1 && names.all fun name => (Command.ofName? name).isSome then .error .help
    else .error .usage
  | word :: rest =>
    match Command.ofName? word with
    | none => .error .usage
    | some command =>
      let (after, _) ← readArguments (command.switches ++ globalSwitches) command.room false
        .start none rest
      command.invocation before after inherited

end AliasCatalog.CommandLine
