import GraphTex.Json

/-!
# Options

The options of a compiler and their form in JSON: an object in which unknown members are ignored and
absent ones have their default, or the array of the options in order.
-/

namespace GraphTex

/-- The options of a compiler. -/
structure Options where
  /-- The number of levels that expressions may nest. -/
  maxDepth : Nat := 256
  deriving DecidableEq, Repr

namespace Options

/-- The options with the nesting limit that is given, if one is. -/
def ofLimit? : Option Json → Option Options
  | none => some {}
  | some limit => limit.word?.map ({ maxDepth := · })

/-- The options that a JSON value stands for. -/
def ofJson? : Json → Option Options
  | .obj fields => ofLimit? (Json.field? "max_depth" fields)
  | .arr [] => ofLimit? none
  | .arr [limit] => ofLimit? (some limit)
  | _ => none

end Options

end GraphTex
