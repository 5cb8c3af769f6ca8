import GraphTex.Report

/-!
# Parentheses

The depth of a place in a text is the number of parentheses open there. It never falls below zero:
a closing parenthesis at depth zero is *stray*, and reading goes on as if it were not there. An
opening parenthesis that is never closed is found by the depth left at the end.
-/

namespace GraphTex.Paren

/-- The depth behind a character that stands at the given depth. -/
def depthAfter (depth : Nat) : Char → Nat
  | '(' => depth + 1
  | ')' => depth - 1
  | _ => depth

/-- The depth behind a text that starts at depth zero. -/
def depth (t : Text) : Nat := t.foldl depthAfter 0

/-- A parenthesis without partner, reported at its own byte. -/
def mismatch (offset : Nat) : Report := ⟨.mismatchedParentheses, .ofByte offset⟩

/-- One report for each stray closing parenthesis of a text that stands at `offset`, at the given
depth. -/
def strays (depth offset : Nat) : Text → List Report
  | [] => []
  | c :: rest =>
    let later := strays (depthAfter depth c) (offset + c.utf8Size) rest
    if depth = 0 ∧ c = ')' then mismatch offset :: later else later

/-- The offset of the outermost parenthesis still open at the end of a text that stands at
`offset`. If some are open already, the outermost of them is at `outermost`. -/
def unclosed? (depth outermost offset : Nat) : Text → Option Nat
  | [] => if depth = 0 then none else some outermost
  | c :: rest =>
    unclosed? (depthAfter depth c) (if depth = 0 then offset else outermost)
      (offset + c.utf8Size) rest

end GraphTex.Paren
