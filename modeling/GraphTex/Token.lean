import GraphTex.Paren
import GraphTex.Text.Blank

/-!
# Tokens

The content of a group is cut into tokens at the blanks outside its parentheses. A token may hold
blanks inside its own parentheses, and a token that is not balanced runs on to the end.
-/

namespace GraphTex

/-- A piece of a text and the offset at which it stands. -/
structure Token where
  start : Nat
  text : Text
  deriving DecidableEq, Repr

namespace Token

/-- The span of the token. -/
def span (t : Token) : Span := .ofText t.start t.text

/-- The tokens that begin with a piece at `offset`, which counts only if it has characters. -/
def ofPiece (offset : Nat) : Text × List Token → List Token
  | ([], later) => later
  | (piece, later) => ⟨offset, piece⟩ :: later

/-- Reads a text that stands at `offset`, at the given depth: the piece up to the next blank at
depth zero, and the tokens behind that blank. -/
def scan (depth offset : Nat) : Text → Text × List Token
  | [] => ([], [])
  | c :: rest =>
    let next := offset + c.utf8Size
    if depth = 0 ∧ isBlank c then ([], ofPiece next (scan 0 next rest))
    else
      let (piece, later) := scan (Paren.depthAfter depth c) next rest
      (c :: piece, later)

/-- The tokens of a text that stands at `offset`, with reports on its stray parentheses and, over
the whole text, on one that is never closed. -/
def split (offset : Nat) (text : Text) : Logged (List Token) :=
  ⟨ofPiece offset (scan 0 offset text),
    Paren.strays 0 offset text ++
      if Paren.depth text = 0 then [] else [⟨.mismatchedParentheses, .ofText offset text⟩]⟩

end Token

end GraphTex
