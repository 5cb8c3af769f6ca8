import GraphTex.Command
import GraphTex.Text.Visible

/-!
# Commands on one line

The record of a command shows its name, its arity and its usage line. Texts stand between quotes,
and characters that cannot be seen are shown by their code points.
-/

namespace GraphTex

/-- A character between quotes. -/
def shownChar (c : Char) : Text :=
  match c with
  | '\x00' => "\\0".toList
  | '\t' => "\\t".toList
  | '\n' => "\\n".toList
  | '\r' => "\\r".toList
  | '"' => "\\\"".toList
  | '\\' => "\\\\".toList
  | c =>
    if isVisible c then [c]
    else "\\u\x7b".toList ++ Nat.toDigits 16 c.toNat ++ "\x7d".toList

/-- A text between quotes. -/
def shownText (t : Text) : String := "\"" ++ String.ofList (t.flatMap shownChar) ++ "\""

/-- The arity in the record of a command. -/
def Arity.record : Arity → String
  | .atLeast n => "AtLeast(" ++ toString n ++ ")"
  | .exactly n => "Exactly(" ++ toString n ++ ")"

/-- The command on one line. -/
def Command.record (c : Command) : String :=
  "Command \x7b name: " ++ shownText c.name ++ ", arity: " ++ c.arity.record ++ ", usage: " ++
    shownText c.usage.toList ++ " \x7d"

end GraphTex
