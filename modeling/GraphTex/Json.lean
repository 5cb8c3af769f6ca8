/-!
# JSON values

The values exchanged with other programs, and their text over several lines: two blanks for each
level, one member a line, and empty containers closed at once.
-/

namespace GraphTex

/-- A JSON value. The members of an object keep their order. -/
inductive Json where
  | null
  | bool (b : Bool)
  | int (n : Int)
  /-- The number `mantissa / 10 ^ exponent`, written with a fraction or an exponent. -/
  | real (mantissa : Int) (exponent : Nat)
  | str (s : String)
  | arr (items : List Json)
  | obj (fields : List (String × Json))
  deriving Repr, Inhabited

namespace Json

/-- A natural number. -/
def nat (n : Nat) : Json := .int n

/-- The value, or null for an absent one. -/
def orNull {α : Type} (toJson : α → Json) : Option α → Json
  | some a => toJson a
  | none => .null

/-! ### Reading -/

/-- The string that a value is. -/
def str? : Json → Option String
  | .str s => some s
  | _ => none

/-- The truth value that a value is. -/
def bool? : Json → Option Bool
  | .bool b => some b
  | _ => none

/-- The number below `2 ^ 64` that a value is. -/
def word? : Json → Option Nat
  | .int n => if 0 ≤ n ∧ n.toNat < UInt64.size then some n.toNat else none
  | _ => none

/-- The first member with a key. -/
def field? (key : String) (fields : List (String × Json)) : Option Json :=
  (fields.find? (·.1 == key)).map (·.2)

/-! ### Writing -/

/-- A character inside quotes: quotes, backslashes and control characters are escaped. -/
def escape (c : Char) : List Char :=
  match c with
  | '"' => ['\\', '"']
  | '\\' => ['\\', '\\']
  | '\n' => ['\\', 'n']
  | '\r' => ['\\', 'r']
  | '\t' => ['\\', 't']
  | '\x08' => ['\\', 'b']
  | '\x0c' => ['\\', 'f']
  | c =>
    if c.toNat < 0x20 then
      ['\\', 'u', '0', '0', Nat.digitChar (c.toNat / 16), Nat.digitChar (c.toNat % 16)]
    else [c]

/-- A string between quotes. -/
def quote (s : String) : String := "\"" ++ String.ofList (s.toList.flatMap escape) ++ "\""

/-- The start of a line at the given level. -/
def newline (level : Nat) : String := "\n" ++ String.ofList (List.replicate (2 * level) ' ')

mutual

/-- The text of a value that starts on a line of the given level. -/
def prettyAt (level : Nat) : Json → String
  | .null => "null"
  | .bool b => if b then "true" else "false"
  | .int n => toString n
  | .real mantissa exponent => toString mantissa ++ "e-" ++ toString exponent
  | .str s => quote s
  | .arr [] => "[]"
  | .arr (item :: items) =>
    "[" ++ newline (level + 1) ++ prettyAt (level + 1) item ++ prettyItems (level + 1) items ++
      newline level ++ "]"
  | .obj [] => "\x7b\x7d"
  | .obj ((key, value) :: fields) =>
    "\x7b" ++ newline (level + 1) ++ quote key ++ ": " ++ prettyAt (level + 1) value ++
      prettyFields (level + 1) fields ++ newline level ++ "\x7d"

/-- Further items of an array, each on a line of its own. -/
def prettyItems (level : Nat) : List Json → String
  | [] => ""
  | item :: items => "," ++ newline level ++ prettyAt level item ++ prettyItems level items

/-- Further members of an object, each on a line of its own. -/
def prettyFields (level : Nat) : List (String × Json) → String
  | [] => ""
  | (key, value) :: fields =>
    "," ++ newline level ++ quote key ++ ": " ++ prettyAt level value ++ prettyFields level fields

end

/-- The text of a value over several lines. -/
def pretty (j : Json) : String := prettyAt 0 j

end Json

end GraphTex
