import GraphTex.Node
import GraphTex.Literal
import GraphTex.Report
import GraphTex.Template

/-!
# Commands

A command has a name, an arity, a usage line and a rule. The rule says which arguments are rendered
and how: at the first positions by its slots, behind them all in one way or not at all. The
fragments fill the rule's template in the order of the arguments.
-/

namespace GraphTex

/-- How many arguments a command takes. -/
inductive Arity where
  | atLeast (minimum : Nat)
  | exactly (count : Nat)
  deriving DecidableEq, Repr

namespace Arity

/-- The smallest number of arguments taken. -/
def minimum : Arity → Nat
  | .atLeast n => n
  | .exactly n => n

/-- The number of arguments is one that is taken. -/
def accepts : Arity → Nat → Bool
  | .atLeast n, count => n ≤ count
  | .exactly n, count => count == n

/-- The arity in words. -/
def text : Arity → String
  | .atLeast n => s!"at least {n}"
  | .exactly n => s!"exactly {n}"

end Arity

/-- What an argument stands for, which decides how it is rendered. -/
inductive Position where
  /-- A number, a name or an expression. -/
  | value
  /-- A name, in the given role. -/
  | name (role : String)
  /-- Text that is kept as it is, or an expression. -/
  | verbatim
  deriving DecidableEq, Repr

namespace Position

/-- Renders a literal as a name. A text that is none is reported and kept as it is. -/
def renderName (text : Text) (span : Span) : Logged Text :=
  match Literal.formatName text with
  | .ok written => pure written
  | .error fault => .failing text fault span

/-- Renders a literal at a position. -/
def renderLiteral (text : Text) (span : Span) : Position → Logged Text
  | .value => if Literal.isNumeral text then pure text else renderName text span
  | .name _ => renderName text span
  | .verbatim => pure text

/-- The reports on an expression at a position of the given command. -/
def misuse (command : Text) (span : Span) : Position → List Report
  | .name role => [⟨.expectedIdentifier command role, span⟩]
  | _ => []

end Position

/-- A position of a rule and the fragment that stands in for a missing argument. -/
structure Slot where
  position : Position
  missing : Text := []
  deriving DecidableEq, Repr

/-- A condition on the arguments of a rule, checked before any of them is rendered. -/
inductive Requirement where
  /-- No argument is a numeral or one of the constants `pi` and `tau`. -/
  | noNumbers
  /-- The argument with the given index, if it is there, is a parameter list. -/
  | paramsAt (index : Nat)
  deriving DecidableEq, Repr

/-- The argument is a number: a numeral or one of the constants `pi` and `tau`. -/
def Argument.isNumber : Argument → Bool
  | .literal text _ => Literal.isNumeral text
  | .expr node => node.command == "pi".toList || node.command == "tau".toList

/-- The reports on arguments of the given command that do not meet a requirement. -/
def Requirement.violations (command : Text) (args : List Argument) : Requirement → List Report
  | .noNumbers => (args.filter (·.isNumber)).map fun arg => ⟨.unexpectedNumber command, arg.span⟩
  | .paramsAt index =>
    (args[index]?.toList.filter (!·.isCallOf "params".toList)).map fun arg =>
      ⟨.expectedParams command, arg.span⟩

/-- How a command renders its arguments. -/
structure Rule where
  requirement : Option Requirement := none
  /-- The positions of the first arguments. -/
  slots : List Slot := []
  /-- The position of each further argument, or nothing if these are not rendered. -/
  rest : Option Position := none
  template : Template
  deriving DecidableEq, Repr

/-- A command that can be registered. -/
structure Command where
  name : Text
  arity : Arity
  usage : String
  rule : Rule
  deriving DecidableEq, Repr

end GraphTex
