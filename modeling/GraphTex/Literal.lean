import GraphTex.Fault

/-!
# Literals

A literal in a value position is a numeral or a name. Numerals are kept as they are. A name of
several characters is written with all but the first as a subscript.
-/

namespace GraphTex.Literal

/-- A character of a numeral. -/
def isNumeralChar (c : Char) : Bool := c.isDigit || c == '.' || c == 'e' || c == '-'

/-- The text is not empty and made of digits, points, minus signs and the letter `e`. -/
def isNumeral (t : Text) : Bool := !t.isEmpty && t.all isNumeralChar

/-- A character of a name. -/
def isNameChar (c : Char) : Bool := c.isAlphanum || c == '_'

/-- The way a name is written, or the reason why the text is no name. -/
def formatName : Text → Except Fault Text
  | [] => .error (.emptyIdentifier [])
  | c :: rest =>
    if c.isDigit || !(c :: rest).all isNameChar then .error (.malformedIdentifier (c :: rest))
    else if rest.isEmpty then .ok [c]
    else .ok (c :: '_' :: '{' :: (rest ++ ['}']))

end GraphTex.Literal
