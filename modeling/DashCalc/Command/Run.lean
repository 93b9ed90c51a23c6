import DashCalc.Command.Help
import DashCalc.Cost.Formula
import DashCalc.Hierarchy.Json
import DashCalc.Hierarchy.Listing
import DashCalc.Json.Printer
import DashCalc.Json.Reader
import DashCalc.Settings.OfToml

/-!
# Running a command

A run depends on its arguments and on the files and variables around it, and on nothing else; it
ends with an exit code, what is printed, and possibly a complaint.
-/

namespace DashCalc.Command

/-! ## The world around a run -/

/-- What is at a path. -/
inductive FileState
  /-- Nothing, and what is said about that. -/
  | absent (why : String)
  /-- Something that cannot be read as a file, and what is said about it. -/
  | unreadable (why : String)
  | bytes (content : ByteArray)

/-- What a run can see. -/
structure World where
  file : String → FileState
  /-- The variable that names the file with the settings. -/
  configVariable : Option String
  /-- The user's own file with settings. -/
  userConfig : Option String

/-- Nothing is there. -/
def FileState.missing : FileState := .absent "No such file or directory (os error 2)"

def FileState.directory : FileState := .unreadable "Is a directory (os error 21)"

/-- The file with settings in the present directory. -/
def localConfig : String := "calcscope.toml"

/-- The name of the variable that names the file with the settings. -/
def configVariableName : String := "CALCSCOPE_CONFIG"

/-- The user's own file with settings: in the directory for configurations if it is absolute, else
in the home directory. -/
def userConfigPath (configHome home : Option String) : Option String :=
  let absolute := configHome.filter fun path => path.toList.head? == some '/'
  let directory := absolute <|> (home.filter (· != "")).map (· ++ "/.config")
  directory.map (· ++ "/calcscope/config.toml")

/-- Every path that a run may look at. -/
def World.paths (configVariable userConfig : Option String) (i : Invocation) : List String :=
  let file := match i.action with
    | .analyze file _ | .chain file _ _ => [file]
    | _ => []
  i.config.toList ++ configVariable.toList ++ localConfig :: userConfig.toList ++ file

/-! ## Complaints -/

/-- Why a run fails. -/
inductive Complaint
  | misuse
  | configMissing (path : String)
  | configUnreadable (why : String)
  | configMalformed
  | configInvalid (fault : Settings.Fault)
  | unreadable (file why : String)
  | notJson (file : String)
  | notRequests (file : String)
  | refused (r : Refusal)
  | noExpression (request name : String)
  /-- A formula was refused in a way that ends the whole run. -/
  | abandoned

namespace Complaint

/-- What is said about a failure, apart from details. -/
def heading : Complaint → String
  | misuse => "error: the arguments do not fit; try '--help'"
  | configMissing path => "Config error: Config file not found: " ++ path
  | configUnreadable why => "Config error: Failed to read config file: " ++ why
  | configMalformed => "Config error: Failed to parse config file:"
  | configInvalid fault => "Config error: " ++ fault.message
  | unreadable file why => "Error reading file '" ++ file ++ "': " ++ why
  | notJson file => "Invalid JSON in '" ++ file ++ "':"
  | notRequests file => "Invalid request bundle in '" ++ file ++ "':"
  | refused r => r.heading
  | noExpression request name =>
    "No expression '" ++ name ++ "' in request '" ++ request ++ "'"
  | abandoned => "error: the right operand of DIV cannot be read"

def details : Complaint → String
  | configMalformed => " it is not TOML, or a setting is of the wrong kind"
  | notJson _ => " it is not one JSON value"
  | notRequests _ => " a field is of the wrong kind"
  | refused r => r.details
  | _ => ""

/-- All that is said about a failure. -/
def message (c : Complaint) : String := c.heading ++ c.details

def code : Complaint → UInt32
  | misuse => 2
  | abandoned => 101
  | _ => 1

end Complaint

/-- The text of a file, or why there is none. -/
def FileState.text : FileState → Except String String
  | absent why => .error why
  | unreadable why => .error why
  | bytes content =>
    match String.fromUTF8? content with
    | some text => .ok text
    | none => .error "stream did not contain valid UTF-8"

/-! ## Steps -/

/-- The settings in a file. -/
def settingsIn (world : World) (path : String) : Except Complaint Settings :=
  match world.file path with
  | .absent _ => .error (.configMissing path)
  | .unreadable why => .error (.configUnreadable why)
  | .bytes content =>
    match Settings.ofFile content with
    | .ok settings => .ok settings
    | .error .notText => .error (.configUnreadable "stream did not contain valid UTF-8")
    | .error .malformed => .error .configMalformed
    | .error (.invalid fault) => .error (.configInvalid fault)

/-- Whether there is something at a path. -/
def World.has (world : World) (path : String) : Bool :=
  match world.file path with
  | .absent _ => false
  | _ => true

/-- The settings of a run: those of the file named by the option or by the variable, else those of
the first file there is, else the standard ones. -/
def loadSettings (world : World) (config : Option String) : Except Complaint Settings :=
  match config <|> world.configVariable with
  | some path => settingsIn world path
  | none =>
    match (localConfig :: world.userConfig.toList).find? world.has with
    | some path => settingsIn world path
    | none => .ok {}

/-- The requests in a file that holds one of them or an array. -/
def readRequests (world : World) (file : String) : Except Complaint (List Request) :=
  match (world.file file).text with
  | .error why => .error (.unreadable file why)
  | .ok text =>
    match Json.parse Json.fileNesting text with
    | none => .error (.notJson file)
    | some j =>
      let requests := match j with
        | .arr items => items.mapM Request.ofJson?
        | j => (Request.ofJson? j).map ([·])
      match requests with
      | none => .error (.notRequests file)
      | some requests => .ok requests

/-- The hierarchy of the requests in a file. -/
def hierarchyIn (world : World) (settings : Settings) (file : String) :
    Except Complaint Hierarchy := do
  let requests ← readRequests world file
  let (builder, _) :=
    Hierarchy.Builder.addAll settings.analysis settings.docs.links {} requests
  if builder.isAbandoned then .error .abandoned
  else return builder.finish settings.analysis

/-- The lines that an action prints. -/
def perform (world : World) (settings : Settings) : Action → Except Complaint (List String)
  | .preprocess formula => return [Node.sqlOfFormula formula]
  | .analyzeFormula formula =>
    match Cost.FormulaAnalysis.ofFormula formula settings.docs.links with
    | .ok a => return [a.toJson.pretty]
    | .error r => .error (if r.cause.isAbrupt then .abandoned else .refused r)
  | .analyze file format => do
    let h ← hierarchyIn world settings file
    match format with
    | .tree => return h.root.outline 0
    | .summary => return h.summary
    | .json => return [(h.toJson {}).pretty]
  | .chain file request name => do
    let h ← hierarchyIn world settings file
    match h.chain? settings.docs.links settings.analysis.dependencyMode request name with
    | some chain => return Hierarchy.chainLines chain
    | none => .error (.noExpression request name)

/-! ## Runs -/

/-- How a run ends. -/
structure Outcome where
  output : String
  complaint : Option Complaint

def Outcome.code (o : Outcome) : UInt32 := (o.complaint.map Complaint.code).getD 0

/-- The end of a run that prints lines, or fails. -/
def Outcome.ofLines : Except Complaint (List String) → Outcome
  | .ok lines => ⟨String.join (lines.map (· ++ "\n")), none⟩
  | .error complaint => ⟨"", some complaint⟩

/-- Does what is wished. -/
def fulfil (world : World) : Option Wish → Outcome
  | none => .ofLines (.error .misuse)
  | some .version => .ofLines (.ok [versionLine])
  | some (.help topic long) => .ofLines (.ok (topic.help long))
  | some (.run i) => .ofLines do
    let settings ← loadSettings world i.config
    perform world settings i.action

def run (world : World) (arguments : List String) : Outcome := fulfil world (parse arguments)

end DashCalc.Command
