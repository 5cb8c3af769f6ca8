import GraphTex.Text

/-!
# Joining LaTeX fragments

A control word is a backslash with letters behind it. A letter that follows it directly would
become part of it, so a blank is put between the two.
-/

namespace GraphTex.Latex

/-- The text ends in a backslash followed by at least one letter. -/
def endsInControlWord (t : Text) : Bool :=
  !(t.reverse.takeWhile Char.isAlpha).isEmpty &&
    (t.reverse.dropWhile Char.isAlpha).head? == some '\\'

/-- The text starts with a letter. -/
def startsWithLetter (t : Text) : Bool := t.head?.any Char.isAlpha

/-- Puts a fragment behind what is written already, without changing a control word at the seam. -/
def push (written fragment : Text) : Text :=
  if startsWithLetter fragment && endsInControlWord written then written ++ ' ' :: fragment
  else written ++ fragment

/-- Fragments in order with a separator between neighbours, seam by seam. -/
def join (separator : Text) : List Text → Text
  | [] => []
  | first :: rest => rest.foldl (fun written part => push (push written separator) part) first

end GraphTex.Latex
