import GraphTex.Text

/-!
# Faults

A fault is the cause of a diagnostic. Its wording, the phase that finds it, its category, its code,
the label under the offending text and the advice given to the user are all functions of the cause.
-/

namespace GraphTex

/-- The stage of the work that finds a fault. -/
inductive Phase where
  | parse
  | render
  | fileSystem
  deriving DecidableEq, Repr

/-- The name of a phase inside a code. -/
def Phase.name : Phase → String
  | .parse => "parse"
  | .render => "render"
  | .fileSystem => "file-system"

/-- The family a fault belongs to. -/
inductive Category where
  | structural
  | identifier
  | arity
  | unknownCommand
  | semantic
  | io
  deriving DecidableEq, Repr

/-- The name of a category in machine-readable output. -/
def Category.name : Category → String
  | .structural => "structural"
  | .identifier => "identifier"
  | .arity => "arity"
  | .unknownCommand => "unknown_command"
  | .semantic => "semantic"
  | .io => "io"

/-- The causes of diagnostics. -/
inductive Fault where
  /-- A parenthesis without its partner. -/
  | mismatchedParentheses
  /-- A group without a command, and what stands in its place, if anything does. -/
  | commandExpected (found : Option Text)
  /-- An expression below the deepest level allowed. -/
  | nestingTooDeep (limit : Nat)
  /-- A name without characters. -/
  | emptyIdentifier (identifier : Text)
  /-- A name with a character that names do not have, or a digit in front. -/
  | malformedIdentifier (identifier : Text)
  /-- An expression where a command takes a name. -/
  | expectedIdentifier (command : Text) (role : String)
  /-- A number of arguments that a command does not take. -/
  | arityMismatch (command : Text) (expected : String) (actual : Nat)
  /-- A command that is not registered. -/
  | unknownCommand (command : Text)
  /-- A number where a command takes points or updates. -/
  | unexpectedNumber (command : Text)
  /-- Something other than a parameter list where a function has its inputs. -/
  | expectedParams (command : Text)
  /-- A path that cannot be read. -/
  | invalidPath (path reason : String)
  deriving DecidableEq, Repr

namespace Fault

/-- The phase that finds the fault. -/
def phase : Fault → Phase
  | .mismatchedParentheses | .commandExpected _ | .nestingTooDeep _ => .parse
  | .invalidPath _ _ => .fileSystem
  | _ => .render

/-- The category of the fault. -/
def category : Fault → Category
  | .mismatchedParentheses | .commandExpected _ | .nestingTooDeep _ => .structural
  | .emptyIdentifier _ | .malformedIdentifier _ | .expectedIdentifier _ _ => .identifier
  | .arityMismatch _ _ _ => .arity
  | .unknownCommand _ => .unknownCommand
  | .unexpectedNumber _ | .expectedParams _ => .semantic
  | .invalidPath _ _ => .io

/-- The short name of the fault, the last part of its code. -/
def slug : Fault → String
  | .mismatchedParentheses => "mismatched_parentheses"
  | .commandExpected _ => "command_expected"
  | .nestingTooDeep _ => "nesting_too_deep"
  | .emptyIdentifier _ => "empty_identifier"
  | .malformedIdentifier _ => "malformed_identifier"
  | .expectedIdentifier _ _ => "expected_identifier"
  | .arityMismatch _ _ _ => "arity_mismatch"
  | .unknownCommand _ => "unknown_command"
  | .unexpectedNumber _ => "unexpected_number"
  | .expectedParams _ => "expected_params"
  | .invalidPath _ _ => "invalid_path"

/-- The code of the fault: program, phase and short name. -/
def code (f : Fault) : String := "dec::" ++ f.phase.name ++ "::" ++ f.slug

/-- A text between double quotes, as messages show it. -/
def quoted (t : Text) : String := "\"" ++ String.ofList t ++ "\""

/-- What went wrong, in one sentence. -/
def message : Fault → String
  | .mismatchedParentheses => "mismatched parentheses"
  | .commandExpected _ => "command expected after '('"
  | .nestingTooDeep limit => s!"expression nested deeper than {limit} levels"
  | .emptyIdentifier name => "identifier " ++ quoted name ++ " is empty"
  | .malformedIdentifier name => "identifier " ++ quoted name ++ " is not alphanumeric"
  | .expectedIdentifier command role =>
    "expected identifier as " ++ role ++ " for " ++ quoted command ++ ", found an expression"
  | .arityMismatch command expected actual =>
    quoted command ++ " expects " ++ expected ++ s!" argument(s), got {actual}"
  | .unknownCommand command => "command " ++ quoted command ++ " not found"
  | .unexpectedNumber command => "unexpected number in " ++ quoted command
  | .expectedParams command => "expected (params ...) as function inputs for " ++ quoted command
  | .invalidPath path reason => "cannot read " ++ path ++ ": " ++ reason

/-- The label put under the text the fault is about. -/
def label : Fault → String
  | .mismatchedParentheses => "unbalanced here"
  | .commandExpected _ => "command missing here"
  | .nestingTooDeep _ => "too deep"
  | .emptyIdentifier _ => "empty identifier"
  | .malformedIdentifier _ => "invalid identifier"
  | .expectedIdentifier _ _ => "expected identifier"
  | .arityMismatch _ _ _ => "arity mismatch"
  | .unknownCommand _ => "unknown command"
  | .unexpectedNumber _ => "number not allowed here"
  | .expectedParams _ => "expected (params ...)"
  | .invalidPath _ _ => "invalid path"

/-- Advice on how to mend the fault, where there is some. -/
def help : Fault → Option String
  | .commandExpected (some found) =>
    some ("the first item of a group names a command, but found `" ++ String.ofList found ++ "`")
  | .malformedIdentifier _ =>
    some "identifiers start with a letter or '_' and contain only letters, digits and '_'"
  | .unknownCommand _ => some "run `dec commands` to list every command"
  | .unexpectedNumber _ => some "use a point or an identifier instead of a number"
  | _ => none

end Fault

end GraphTex
