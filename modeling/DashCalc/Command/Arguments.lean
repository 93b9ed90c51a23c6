/-!
# Arguments of the command line

`Command.parse` reads the arguments: options, the name of a command, and what the command needs.
Options have a long and a short name; short ones may be joined, and a value may follow its option
directly, behind an equals sign, or as the next argument. Behind `--` nothing is an option. The
options of the program may also stand behind the command; there they count more.
-/

namespace DashCalc.Command

/-- How a hierarchy is printed. -/
inductive Format
  | tree | summary | json
  deriving DecidableEq

namespace Format

def name : Format → String
  | tree => "tree"
  | summary => "summary"
  | json => "json"

def ofName? (name : String) : Option Format :=
  [tree, summary, json].find? fun f => f.name == name

end Format

/-- What is to be done. -/
inductive Action
  | preprocess (formula : String)
  | analyzeFormula (formula : String)
  | analyze (file : String) (format : Format)
  | chain (file request name : String)
  deriving DecidableEq

/-- What is to be done, and with which settings. -/
structure Invocation where
  /-- The file with the settings, if one is named. -/
  config : Option String
  action : Action
  deriving DecidableEq

/-- What help is asked for. -/
inductive Topic
  | program | preprocess | analyzeFormula | analyze | chain | helpCommand
  deriving DecidableEq

/-- What the arguments ask for. -/
inductive Wish
  | run (invocation : Invocation)
  | help (topic : Topic) (long : Bool)
  | version
  deriving DecidableEq

/-! ## Options and operands -/

/-- An option. -/
structure Switch where
  short : Char
  long : String
  /-- Which values it takes; nothing if it takes none. -/
  accepts : Option (String → Bool)

/-- What may stand at a place of the command line. -/
structure Level where
  switches : List Switch
  /-- Which operands are taken, one after the other; if there are none, a command follows. -/
  operands : List (String → Bool)
  hasVersion : Bool

/-- What stands there: the options with their values, and the operands. -/
structure Given where
  values : List (String × String) := []
  operands : List String := []

/-- Why reading ends early. -/
inductive Stop
  | misuse
  | help (long : Bool)
  | version

/-- Whether an argument is an option, or several. -/
def isOption (argument : String) : Bool :=
  match argument.toList with
  | '-' :: _ :: _ => true
  | _ => false

namespace Given

/-- Takes a value for an option, which must be new. -/
def put (g : Given) (s : Switch) (value : String) : Except Stop Given :=
  let fits := match s.accepts with
    | some accepts => accepts value
    | none => true
  if !fits || (g.values.lookup s.long).isSome then .error .misuse
  else .ok { g with values := (s.long, value) :: g.values }

def putOperand (g : Given) (level : Level) (operand : String) : Except Stop Given :=
  match level.operands[g.operands.length]? with
  | some accepts =>
    if accepts operand then .ok { g with operands := g.operands ++ [operand] } else .error .misuse
  | none => .error .misuse

def value? (g : Given) (long : String) : Option String := g.values.lookup long

end Given

/-- Takes an option by its long name and the value behind the equals sign; gives the option if its
value is to follow. -/
def readLong (level : Level) (g : Given) (name : String) (attached : Option String) :
    Except Stop (Option Switch × Given) :=
  match level.switches.find? fun s => s.long == name with
  | some s =>
    match s.accepts, attached with
    | some _, none => .ok (some s, g)
    | some _, some value => (g.put s value).map (none, ·)
    | none, none => (g.put s "").map (none, ·)
    | none, some _ => .error .misuse
  | none =>
    if attached.isSome then .error .misuse
    else if name = "help" then .error (.help true)
    else if name = "version" && level.hasVersion then .error .version
    else .error .misuse

/-- Takes options by their short names; gives the last one if its value is to follow. -/
def readShort (level : Level) : List Char → Given → Except Stop (Option Switch × Given)
  | [], g => .ok (none, g)
  | c :: rest, g =>
    match level.switches.find? fun s => s.short == c with
    | some s =>
      match s.accepts, rest with
      | some _, [] => .ok (some s, g)
      | some _, '=' :: value => (g.put s (String.ofList value)).map (none, ·)
      | some _, value => (g.put s (String.ofList value)).map (none, ·)
      | none, rest => do
        let g ← g.put s ""
        readShort level rest g
    | none =>
      if c = 'h' then .error (.help false)
      else if c = 'V' && level.hasVersion then .error .version
      else .error .misuse

/-- Takes an option or several, as they are written in one argument. -/
def readOption (level : Level) (g : Given) (argument : String) :
    Except Stop (Option Switch × Given) :=
  match argument.toList with
  | '-' :: '-' :: rest =>
    let (name, value) := rest.span (· ≠ '=')
    let attached := if value.isEmpty then none else some (String.ofList (value.drop 1))
    readLong level g (String.ofList name) attached
  | _ :: rest => readShort level rest g
  | [] => .error .misuse

/-- Reads arguments up to the end or to a command; gives what stands there, and the arguments from
the command on. `pending` is an option whose value comes next. -/
def readArguments (level : Level) :
    Option Switch → Given → List String → Except Stop (Given × List String)
  | none, g, [] => .ok (g, [])
  | some _, _, [] => .error .misuse
  | some s, g, argument :: rest =>
    if isOption argument then .error .misuse
    else do
      let g ← g.put s argument
      readArguments level none g rest
  | none, g, argument :: rest =>
    if argument = "--" then do
      let g ← rest.foldlM (fun g operand => g.putOperand level operand) g
      return (g, [])
    else if isOption argument then do
      let (pending, g) ← readOption level g argument
      readArguments level pending g rest
    else if level.operands.isEmpty then .ok (g, argument :: rest)
    else do
      let g ← g.putOperand level argument
      readArguments level none g rest

/-! ## Commands -/

/-- Any value. -/
def anything (_ : String) : Bool := true

/-- A value that names a file. -/
def isFileName (value : String) : Bool := !value.isEmpty

def programSwitches : List Switch := [⟨'c', "config", some isFileName⟩, ⟨'v', "verbose", none⟩]

/-- What may stand in front of the command. -/
def programLevel : Level := ⟨programSwitches, [], true⟩

/-- What may stand behind each command. -/
def Topic.level : Topic → Level
  | program => programLevel
  | helpCommand => ⟨[], [], false⟩
  | preprocess | analyzeFormula => ⟨programSwitches, [anything], false⟩
  | analyze =>
    let isFormat (value : String) : Bool := (Format.ofName? value).isSome
    ⟨⟨'f', "format", some isFormat⟩ :: programSwitches, [isFileName], false⟩
  | chain =>
    ⟨⟨'r', "request", some anything⟩ :: ⟨'a', "alias", some anything⟩ :: programSwitches,
      [isFileName], false⟩

/-- The command of a name. -/
def Topic.ofCommand? : String → Option Topic
  | "preprocess" => some preprocess
  | "analyze-expr" => some analyzeFormula
  | "analyze" => some analyze
  | "chain" => some chain
  | _ => none

/-- What a command is to do, if it has all it needs. -/
def Topic.action? (topic : Topic) (g : Given) : Option Action :=
  match topic, g.operands with
  | preprocess, [formula] => some (.preprocess formula)
  | analyzeFormula, [formula] => some (.analyzeFormula formula)
  | analyze, [file] => some (.analyze file (((g.value? "format").bind Format.ofName?).getD .tree))
  | chain, [file] => do some (.chain file (← g.value? "request") (← g.value? "alias"))
  | _, _ => none

/-- What is wished when reading ends early. -/
def Stop.wish? (topic : Topic) : Stop → Option Wish
  | misuse => none
  | help long => some (.help topic long)
  | version => some .version

/-- What the arguments behind the word `help` ask for. -/
def helpWish? : List String → Option Wish
  | [] => some (.help .program true)
  | ["help"] => some (.help .helpCommand true)
  | [command] => (Topic.ofCommand? command).map (.help · true)
  | _ => none

/-- What the arguments ask for; nothing if they do not fit. -/
def parse (arguments : List String) : Option Wish :=
  match readArguments programLevel none {} arguments with
  | .error stop => stop.wish? .program
  | .ok (_, []) => none
  | .ok (before, command :: rest) =>
    match Topic.ofCommand? command with
    | none => if command = "help" then helpWish? rest else none
    | some topic =>
      match readArguments topic.level none {} rest with
      | .error stop => stop.wish? topic
      | .ok (behind, _) =>
        (topic.action? behind).map fun action =>
          .run ⟨behind.value? "config" <|> before.value? "config", action⟩

end DashCalc.Command
