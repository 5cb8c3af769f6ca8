import GraphTex.Span

/-!
# Expression trees

A node is one parenthesized expression: a command and its arguments, which are literals or nodes.
Spans of nodes leave out the enclosing parentheses.
-/

namespace GraphTex

mutual

/-- A command applied to arguments. -/
structure Node where
  /-- The name of the command. -/
  command : Text
  commandSpan : Span
  args : List Argument
  /-- The span between the parentheses. -/
  span : Span
  /-- Whether some argument could not be read and is missing from `args`. -/
  droppedArgs : Bool

/-- An argument of a command. -/
inductive Argument where
  | literal (text : Text) (span : Span)
  | expr (node : Node)

end

/-- The span of an argument, without the parentheses of an expression. -/
def Argument.span : Argument → Span
  | .literal _ span => span
  | .expr node => node.span

/-- The argument is an expression with the given command. -/
def Argument.isCallOf (command : Text) : Argument → Bool
  | .literal _ _ => false
  | .expr node => node.command == command

mutual

/-- The expression written on one line, with single blanks. -/
def Node.pretty : Node → Text
  | ⟨command, _, args, _, _⟩ => '(' :: (command ++ prettyArgs args ++ [')'])

/-- An argument written on one line. -/
def Argument.pretty : Argument → Text
  | .literal text _ => text
  | .expr node => node.pretty

/-- Arguments on one line, each behind a blank. -/
def prettyArgs : List Argument → Text
  | [] => []
  | arg :: rest => ' ' :: (arg.pretty ++ prettyArgs rest)

end

end GraphTex
