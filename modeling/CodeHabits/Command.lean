import CodeHabits.Arguments
import CodeHabits.Decimal.Reader
import CodeHabits.Files
import CodeHabits.Pattern.Event

/-!
# `CodeHabits.Command`: what may be asked for on the command line

The command line names a command, after options that every command shares
and before those of its own. `Invocation.read` reads it.
-/

set_option autoImplicit false

namespace CodeHabits

/-- What may be asked for. -/
inductive Command where
  | analyze (paths : List FilePath) (language? : Option String)
  | suggest (language : String) (recent : List String) (most? : Option Int)
      (threshold? : Option Value)
  | feedback (id : String) (reaction : Reaction) (reason? : Option String)
      (modified? : Option FilePath)
  | decay
  | stats
  | exportTo (path : FilePath)
  | importFrom (path : FilePath) (replace : Bool)

/-- A command with the options that every command shares. -/
structure Invocation where
  /-- The configuration file, if it is not the usual one. -/
  config? : Option FilePath
  quiet : Bool
  command : Command

namespace Command

/-- An option with one argument of any kind. -/
def textOption (name : String) : CommandOption :=
  ⟨name, .one, false, fun _ => true⟩

/-- An operand with one argument of any kind. -/
def textOperand (name : String) : Operand :=
  ⟨name, false, fun _ => true⟩

/-- Everything that an option or operand was given. -/
def allOf (given : Shape.Given) (name : String) : List String :=
  (given.get? name).getD []

/-- What an option was given. -/
def optionOf (given : Shape.Given) (name : String) : Option String :=
  (allOf given name).head?

/-- What an operand was given. -/
def operandOf (given : Shape.Given) (name : String) : String :=
  (optionOf given name).getD ""

/-- The path that an operand was given. -/
def pathOf (given : Shape.Given) (name : String) : FilePath :=
  .ofString (operandOf given name)

/-- How a command is read: its options and operands, and the command that
they make. -/
structure Form where
  options : List CommandOption
  operands : List Operand
  build : Shape.Given → Option Command

/-- The shape of a command. -/
def Form.shape (form : Form) : Shape :=
  ⟨form.options, form.operands, false⟩

/-- Learning from files and from the files in folders. -/
def analyzeForm : Form where
  options := [textOption "--language"]
  operands := [⟨"paths", true, fun _ => true⟩]
  build given :=
    some (.analyze ((allOf given "paths").map .ofString) (optionOf given "--language"))

/-- Suggesting patterns. -/
def suggestForm : Form where
  options :=
    [{ textOption "--language" with isRequired := true }, ⟨"--recent", .any, false, fun _ => true⟩,
     ⟨"--limit", .one, false, fun text => (Decimal.readInt? text).isSome⟩,
     ⟨"--threshold", .one, false, fun text => (Decimal.readFloat? text).isSome⟩]
  operands := []
  build given :=
    some (.suggest (operandOf given "--language") (allOf given "--recent")
      ((optionOf given "--limit").bind Decimal.readInt?)
      ((optionOf given "--threshold").bind fun text => (Decimal.readFloat? text).map .real))

/-- Telling a reaction to a suggestion. -/
def feedbackForm : Form where
  options := [textOption "--reason", textOption "--modified"]
  operands :=
    [textOperand "pattern_id", ⟨"action", false, fun text => (Reaction.ofName? text).isSome⟩]
  build given := do
    return .feedback (operandOf given "pattern_id")
      (← Reaction.ofName? (operandOf given "action")) (optionOf given "--reason")
      ((optionOf given "--modified").map .ofString)

/-- A command that takes nothing. -/
def bareForm (command : Command) : Form :=
  ⟨[], [], fun _ => some command⟩

/-- Writing what was learned to a file. -/
def exportForm : Form where
  options := []
  operands := [textOperand "output"]
  build given := some (.exportTo (pathOf given "output"))

/-- Taking in what another session wrote. -/
def importForm : Form where
  options := [⟨"--replace", .none, false, fun _ => true⟩]
  operands := [textOperand "input"]
  build given := some (.importFrom (pathOf given "input") (given.has "--replace"))

/-- The commands by their names. -/
def forms : Table String Form :=
  [("analyze", analyzeForm), ("suggest", suggestForm), ("feedback", feedbackForm),
   ("decay", bareForm .decay), ("stats", bareForm .stats), ("export", exportForm),
   ("import", importForm)]

end Command

namespace Invocation

/-- The shape of a command line: what every command shares, and the name of
the command. -/
def shape : Shape where
  options := [Command.textOption "--config", ⟨"--quiet", .none, false, fun _ => true⟩]
  operands := [⟨"command", false, fun text => Command.forms.has text⟩]
  leavesRest := true

/-- Reads a command line. An argument without a place in either part of it
is refused once both are read. -/
def read (arguments : List String) : Except Ending Invocation := do
  let (given, hasStray, rest) ← shape.read arguments
  match Command.forms.get? (Command.operandOf given "command") with
  | none => throw .misuse
  | some form =>
    let (own, hasOwnStray, _) ← form.shape.read rest
    if hasStray || hasOwnStray then throw .misuse
    match form.build own with
    | none => throw .misuse
    | some command =>
      return ⟨(Command.optionOf given "--config").map .ofString, given.has "--quiet", command⟩

end Invocation

end CodeHabits
