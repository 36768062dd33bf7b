import SchemeMachine.Source.Path

/-!
# Settings

The user sets the prompts, the level of the log and the load path in variables of
the process environment.  What is not set has a default; an unknown level is the
default level.
-/

namespace SchemeMachine

/-- The settings of a session. -/
structure Settings where
  freshPrompt : String
  openPrompt : String
  logLevel : Nat
  /-- The directories to search; `none` stands for the current one. -/
  loadPath : Option (List Source.Path)

namespace Settings

/-- The variable that sets the prompt for a new expression. -/
def freshPromptVariable : String := "LITTLESCHEME_PROMPT"

/-- The variable that sets the prompt inside an expression. -/
def openPromptVariable : String := "LITTLESCHEME_PROMPT2"

/-- The variable that sets the level of the log. -/
def logLevelVariable : String := "LITTLESCHEME_LOG_LEVEL"

/-- The variable that sets the load path. -/
def loadPathVariable : String := "LITTLESCHEME_PATH"

/-- All the variables that settings are taken from. -/
def variableNames : List String :=
  [freshPromptVariable, openPromptVariable, logLevelVariable, loadPathVariable]

/-- The level at which everything is logged. -/
def debugLevel : Nat := 10

/-- The level unless another one is set. -/
def defaultLevel : Nat := 30

/-- A letter in upper case, as far as the names of levels need it: besides the
letters of ASCII, the dotless i and the long s have capitals in ASCII. -/
def upper (c : Char) : Char :=
  if c.toNat = 0x131 then 'I' else if c.toNat = 0x17F then 'S' else c.toUpper

/-- The levels of the log by name. -/
def levels : List (String × Nat) :=
  [("CRITICAL", 50), ("FATAL", 50), ("ERROR", 40), ("WARNING", 30), ("WARN", 30), ("INFO", 20),
    ("DEBUG", 10), ("NOTSET", 0)]

/-- The level of a name, in upper or lower case. -/
def levelOf (name : String) : Nat :=
  (levels.lookup (String.ofList (name.toList.map upper))).getD defaultLevel

/-- The directories in a list of paths between colons; blank entries are
skipped. -/
def directories (list : String) : List Source.Path :=
  (((Text.pieces ':' list.toList).map fun entry => Text.trim (String.ofList entry)).filter
    fun entry => !entry.isEmpty).map Source.Path.ofText

/-- The settings that the process environment gives. -/
def ofVariables (get : String → Option String) : Settings where
  freshPrompt := (get freshPromptVariable).getD "> "
  openPrompt := (get openPromptVariable).getD "| "
  logLevel := ((get logLevelVariable).map levelOf).getD defaultLevel
  loadPath :=
    match get loadPathVariable with
    | none => none
    | some list => if list.isEmpty then none else some (directories list)

/-- The directories that source files are searched in. -/
def searched (s : Settings) : List Source.Path :=
  s.loadPath.getD [⟨.here, []⟩]

end Settings

end SchemeMachine
