import GraphTex.Latex

/-!
# Templates

A template says how a command writes its rendered arguments. Delimiters are part of the template
only in pairs, around a smaller template, so what a template writes is as well nested as the
fragments it is filled with.
-/

namespace GraphTex

/-- A pair of delimiters of the output. -/
inductive Delimiter where
  /-- The braces that group an argument. -/
  | braces
  /-- Plain square brackets, around the index of a root. -/
  | brackets
  /-- Parentheses that grow with their content. -/
  | tallParens
  /-- Square brackets that grow with their content. -/
  | tallBrackets
  /-- Visible braces that grow with their content. -/
  | tallBraces
  deriving DecidableEq, Repr

/-- The left delimiter. -/
def Delimiter.opening : Delimiter → Text
  | .braces => "\x7b".toList
  | .brackets => "[".toList
  | .tallParens => "\\left(".toList
  | .tallBrackets => "\\left[".toList
  | .tallBraces => "\\left\\\x7b".toList

/-- The right delimiter. -/
def Delimiter.closing : Delimiter → Text
  | .braces => "\x7d".toList
  | .brackets => "]".toList
  | .tallParens => "\\right)".toList
  | .tallBrackets => "\\right]".toList
  | .tallBraces => "\\right\\\x7d".toList

/-- A text with places for rendered arguments. -/
inductive Template where
  /-- Fixed text. -/
  | text (t : Text)
  /-- The fragment with the given index. -/
  | hole (index : Nat)
  /-- All fragments from the given index on, joined by a separator. -/
  | joined (first : Nat) (separator : Text)
  /-- A template between delimiters. -/
  | enclosed (delimiter : Delimiter) (body : Template)
  /-- One template behind another. -/
  | append (left right : Template)
  deriving DecidableEq, Repr

namespace Template

instance : Append Template := ⟨append⟩

/-- Fixed text. -/
def word (s : String) : Template := .text s.toList

/-- All fragments from the given index on, joined by a separator. -/
def sequence (first : Nat) (separator : String) : Template := .joined first separator.toList

/-- A template in braces. -/
def braces (t : Template) : Template := .enclosed .braces t

/-- A template in plain square brackets. -/
def brackets (t : Template) : Template := .enclosed .brackets t

/-- A template in growing parentheses. -/
def parens (t : Template) : Template := .enclosed .tallParens t

/-- A template in growing square brackets. -/
def tallBrackets (t : Template) : Template := .enclosed .tallBrackets t

/-- A template in growing braces. -/
def tallBraces (t : Template) : Template := .enclosed .tallBraces t

/-- The name of a function that has no control word of its own. -/
def operatorName (name : String) : Template := word "\\operatorname" ++ braces (word name)

/-- Puts fragments into their places. A place without fragment stays empty. -/
def fill (fragments : List Text) : Template → Text
  | text t => t
  | hole index => fragments[index]?.getD []
  | joined first separator => Latex.join separator (fragments.drop first)
  | enclosed delimiter body => delimiter.opening ++ body.fill fragments ++ delimiter.closing
  | append left right => left.fill fragments ++ right.fill fragments

end Template

end GraphTex
