import CodeHabits.Table
import CodeHabits.Text.Classes

/-!
# `CodeHabits.Arguments`: the arguments of a command

A command takes options, which have names that begin with two hyphens, and
operands, which come in a fixed order. `Shape` says which, and `read` gives
each of them its arguments.

An option may be shortened as long as one name alone begins that way, and
its argument may follow an equals sign. Behind two hyphens by themselves
there are no options. What looks like a negative number or holds a blank is
no option either. Of an option given twice the later counts. Arguments are
checked in the order in which they come, so a request for help is heeded
only if nothing before it is wrong; an argument without a place is refused
last of all.
-/

set_option autoImplicit false

namespace CodeHabits

/-- How many arguments an option takes. -/
inductive Arity where
  | none
  | one
  | any
  deriving DecidableEq, Repr

/-- An option. -/
structure CommandOption where
  name : String
  arity : Arity
  /-- Whether the option has to be there. -/
  isRequired : Bool
  /-- Which arguments it takes. -/
  accepts : String → Bool

/-- An operand. -/
structure Operand where
  name : String
  /-- Whether the operand takes further arguments that follow its first. -/
  takesMore : Bool
  /-- Which arguments it takes. -/
  accepts : String → Bool

/-- The options and operands of a command. -/
structure Shape where
  options : List CommandOption
  operands : List Operand
  /-- Whether what follows the operands is left to another command. -/
  leavesRest : Bool

/-- Why arguments are not taken. -/
inductive Ending where
  /-- Help was asked for. -/
  | help
  /-- The arguments do not fit. -/
  | misuse
  deriving DecidableEq, Repr

/-- The role of an argument. -/
inductive Role where
  | plain
  /-- Two hyphens by themselves. -/
  | separator
  /-- An option, with what follows its equals sign. -/
  | option (option : CommandOption) (attached : Option String)
  /-- A request for help, perhaps in a form that is not taken. -/
  | help (isTaken : Bool)
  /-- An option that there is not. -/
  | stray

/-- An argument with its role. -/
structure Argument where
  text : String
  role : Role

/-- Whether an argument is two hyphens by themselves. -/
def Argument.isSeparator (a : Argument) : Bool :=
  match a.role with
  | .separator => true
  | _ => false

/-- Whether a text is written like a negative number without an exponent. -/
def looksNegative (cs : List Char) : Bool :=
  match cs with
  | '-' :: rest =>
    let whole := rest.takeWhile Text.isDecimal
    match rest.drop whole.length with
    | [] => !whole.isEmpty
    | '.' :: places => !places.isEmpty && places.all Text.isDecimal
    | _ => false
  | _ => false

/-- The parts of a text before and behind its first equals sign. -/
def splitAttached (cs : List Char) : String × Option String :=
  let name := cs.takeWhile (· != '=')
  (String.ofList name, (cs.drop (name.length + 1) |> String.ofList |> some).filter fun _ =>
    name.length < cs.length)

namespace Shape

/-- The option that every command has. -/
def helpOption : CommandOption :=
  ⟨"--help", .none, false, fun _ => true⟩

/-- The role of an option by its name; asking for help is an option too. -/
def roleOf (option : CommandOption) (attached : Option String) : Role :=
  if option.name == helpOption.name then .help attached.isNone else .option option attached

/-- The options that a name may stand for: the one of that name, or else all
whose names begin with it. -/
def optionsFor (shape : Shape) (name : String) : List CommandOption :=
  let all := helpOption :: shape.options
  match all.find? fun option => option.name == name with
  | some option => [option]
  | none => all.filter fun option => name.toList.isPrefixOf option.name.toList

/-- What begins with a hyphen and names no option. -/
def unnamed (cs : List Char) : Role :=
  if looksNegative cs || cs.contains ' ' then .plain else .stray

/-- The role of an argument before two hyphens by themselves; `none` if it
may stand for several options. The letter for help may be repeated, and
other letters may be joined to it. -/
def role? (shape : Shape) (text : String) : Option Role :=
  match text.toList with
  | '-' :: '-' :: rest =>
    let (name, attached) := splitAttached ('-' :: '-' :: rest)
    match shape.optionsFor name with
    | [] => some (unnamed text.toList)
    | [option] => some (roleOf option attached)
    | _ => none
  | '-' :: 'h' :: rest =>
    some (.help (match rest.dropWhile (· == 'h') with
      | '-' :: _ | '=' :: _ => false
      | _ => true))
  | '-' :: c :: rest => some (unnamed ('-' :: c :: rest))
  | _ => some .plain

/-- Arguments with their roles. -/
def classify (shape : Shape) : List String → Except Ending (List Argument)
  | [] => .ok []
  | "--" :: rest => .ok (⟨"--", .separator⟩ :: rest.map fun text => ⟨text, .plain⟩)
  | text :: rest =>
    match shape.role? text with
    | none => .error .misuse
    | some role => do return ⟨text, role⟩ :: (← shape.classify rest)

end Shape

/-- What the next argument is for. -/
inductive Awaited where
  /-- The next operand, if there is one. -/
  | operand
  /-- An operand that has taken an argument and takes more. -/
  | more (operand : Operand)
  /-- An option that has to have an argument. -/
  | argument (option : CommandOption)
  /-- An option that takes any number of arguments. -/
  | arguments (option : CommandOption)

/-- How far arguments are read. -/
structure Progress where
  /-- The operands still to come. -/
  operands : List Operand
  awaited : Awaited
  /-- Whether an operand was given since the last option. -/
  hasOperand : Bool
  /-- The arguments of each option and operand. -/
  given : Table String (List String)
  /-- Whether there was an argument without a place. -/
  hasStray : Bool

namespace Progress

/-- Gives an argument to an option or operand, behind those that it has. -/
def give (p : Progress) (name : String) (accepts : String → Bool) (earlier : List String)
    (text : String) : Except Ending Progress :=
  if accepts text then .ok { p with given := p.given.put name (earlier ++ [text]) }
  else .error .misuse

/-- The arguments given to an option or operand so far. -/
def soFar (p : Progress) (name : String) : List String :=
  (p.given.get? name).getD []

/-- Takes an argument that is no option. -/
def takePlain (p : Progress) (text : String) : Except Ending Progress :=
  match p.awaited with
  | .argument option => do
    return { ← p.give option.name option.accepts [] text with awaited := .operand }
  | .arguments option => p.give option.name option.accepts (p.soFar option.name) text
  | .more operand => p.give operand.name operand.accepts (p.soFar operand.name) text
  | .operand =>
    match p.operands with
    | [] => .ok { p with hasStray := true }
    | operand :: rest => do
      return { ← p.give operand.name operand.accepts [] text with
        operands := rest
        hasOperand := true
        awaited := if operand.takesMore then .more operand else .operand }

/-- Takes two hyphens by themselves. They need an operand beside them. -/
def takeSeparator (p : Progress) : Except Ending Progress :=
  match p.awaited with
  | .argument _ => .error .misuse
  | .arguments _ =>
    if p.operands.isEmpty then .error .misuse else .ok { p with awaited := .operand }
  | _ => if p.operands.isEmpty && !p.hasOperand then .error .misuse else .ok p

/-- Takes an option. -/
def takeOption (p : Progress) (option : CommandOption) (attached : Option String) :
    Except Ending Progress := do
  let p := { p with awaited := .operand, hasOperand := false }
  match option.arity, attached with
  | .none, none => return { p with given := p.given.put option.name [] }
  | .none, some _ => throw .misuse
  | .one, none => return { p with awaited := .argument option }
  | .any, none =>
    return { p with awaited := .arguments option, given := p.given.put option.name [] }
  | _, some text => p.give option.name option.accepts [] text

/-- Takes an argument in its role. -/
def take (p : Progress) (a : Argument) : Except Ending Progress :=
  match a.role, p.awaited with
  | .plain, _ => p.takePlain a.text
  | .separator, _ => p.takeSeparator
  | _, .argument _ => .error .misuse
  | .option option attached, _ => p.takeOption option attached
  | .help isTaken, _ => .error (if isTaken then .help else .misuse)
  | .stray, _ => .ok { p with awaited := .operand, hasOperand := false, hasStray := true }

/-- Whether nothing that is needed is missing. -/
def isComplete (p : Progress) (shape : Shape) : Bool :=
  let isWaiting := match p.awaited with
    | .argument _ => true
    | _ => false
  !isWaiting && p.operands.isEmpty
    && shape.options.all fun option => !option.isRequired || p.given.has option.name

end Progress

namespace Shape

/-- The arguments of each option and operand. -/
abbrev Given := Table String (List String)

/-- Reads arguments one after the other, up to those that are left to
another command. Two hyphens by themselves name no command. -/
def takeAll (shape : Shape) (p : Progress) : List Argument → Except Ending (Progress × List String)
  | [] => if p.isComplete shape then .ok (p, []) else .error .misuse
  | a :: rest => do
    if shape.leavesRest && a.isSeparator then throw .misuse
    let p ← p.take a
    if shape.leavesRest && p.operands.isEmpty then return (p, rest.map Argument.text)
    shape.takeAll p rest

/-- The arguments of each option and operand, whether there was an argument
without a place, and what is left to another command. -/
def read (shape : Shape) (arguments : List String) :
    Except Ending (Given × Bool × List String) := do
  let (p, rest) ← shape.takeAll ⟨shape.operands, .operand, false, [], false⟩
    (← shape.classify arguments)
  return (p.given, p.hasStray, rest)

end Shape

end CodeHabits
