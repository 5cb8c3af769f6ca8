import GraphTex.Node
import GraphTex.Token

/-!
# Reading expressions

The content of a pair of parentheses is read as a node: its first token is the command, every other
token an argument. A token in parentheses is read in the same way one level down, and the number of
levels left bounds the recursion. An argument that cannot be read is reported and dropped, and
reading goes on behind it.
-/

namespace GraphTex

/-- The text between the parentheses that enclose a token, if its first and last character are
such. -/
def Token.content? (t : Token) : Option Text :=
  match t.text with
  | '(' :: rest => if rest.getLast? = some ')' then some rest.dropLast else none
  | _ => none

/-- The token starts with an opening parenthesis. -/
def Token.isParenthesized (t : Token) : Bool := t.text.head? == some '('

/-- Reads one argument. `descend` reads the content of a pair of parentheses at an offset. -/
def Argument.read (descend : Nat → Text → Logged (Option Node)) (t : Token) :
    Logged (Option Argument) :=
  if t.isParenthesized then
    match t.content? with
    | some content => do
      let node? ← descend (t.start + 1) content
      pure (node?.map .expr)
    | none => .failing none .mismatchedParentheses t.span
  else pure (some (.literal t.text t.span))

/-- Reads the text between a pair of parentheses, which stands at `offset`, with the given number
of levels left. The `limit` is named in reports. -/
def Node.read (limit : Nat) : Nat → Nat → Text → Logged (Option Node)
  | 0, offset, text => .failing none (.nestingTooDeep limit) (.ofText offset text)
  | levels + 1, offset, text => do
    match ← Token.split offset text with
    | [] => .failing none (.commandExpected none) (.ofText offset text)
    | head :: rest =>
      if head.isParenthesized then
        .failing none (.commandExpected (some head.text)) head.span
      else
        let args ← Logged.each (Argument.read (Node.read limit levels)) rest
        pure (some
          { command := head.text
            commandSpan := head.span
            args := args.filterMap id
            span := .ofText offset text
            droppedArgs := args.any Option.isNone })

end GraphTex
