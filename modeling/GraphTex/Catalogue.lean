import GraphTex.Registry

/-!
# The commands

The commands come in eight families. Each command is a row: its name, how many arguments it takes,
its usage line and its rule.
-/

namespace GraphTex

/-- A family of commands. -/
inductive Family where
  /-- Variables, functions and verbatim text. -/
  | binding
  /-- Sums, products, powers, roots and logarithms. -/
  | arithmetic
  /-- Points, polygons and actions. -/
  | geometry
  /-- Lists and statistics. -/
  | collections
  /-- Trigonometric and rounding functions. -/
  | trig
  /-- Relations and conditions. -/
  | logic
  /-- Derivatives, integrals, sums and products over a range. -/
  | calculus
  /-- Greek letters and other constants. -/
  | constants
  deriving DecidableEq, Repr

namespace Family

open Template

/-- The slots of `count` values. -/
def values (count : Nat) : List Slot := List.replicate count { position := .value }

/-- The slot of a name. -/
def nameAs (role : String) : Slot := { position := .name role }

/-- A row of the catalogue. -/
def row (name : String) (arity : Arity) (usage : String) (rule : Rule) : Command :=
  { name := name.toList, arity, usage, rule }

/-- A rule that renders exactly the first `count` arguments as values. -/
def ofValues (count : Nat) (template : Template) : Rule := { slots := values count, template }

/-- A rule that renders all arguments as values. -/
def ofAll (template : Template) : Rule := { rest := some .value, template }

/-- A command that applies a function to its first argument. -/
def functionOfOne (name argument : String) (head : Template) : Command :=
  row name (.atLeast 1) s!"({name} <{argument}>)" (ofValues 1 (head ++ parens (hole 0)))

/-- A command that applies a function to all its arguments. -/
def functionOfAll (name argument : String) (head : Template) : Command :=
  row name (.atLeast 1) s!"({name} <{argument}> ...)" (ofAll (head ++ parens (sequence 0 ",")))

/-- A command that writes its arguments in parentheses with a sign between them. -/
def operation (name sign : String) : Command :=
  row name (.atLeast 0) s!"({name} <a> <b> ...)" (ofAll (parens (sequence 0 sign)))

/-- A command that compares two arguments. -/
def relation (name sign : String) : Command :=
  row name (.atLeast 2) s!"({name} <a> <b>)" (ofValues 2 (sequence 0 sign))

/-- A command without arguments. -/
def constant (name : String) (template : Template) : Command :=
  row name (.atLeast 0) s!"({name})" { template }

/-- A command that adds or multiplies over the range of a bound variable. -/
def overRange (name : String) : Command :=
  row name (.atLeast 4) s!"({name} <variable> <from> <to> <body>)"
    { slots := nameAs "bound variable" :: values 3
      template := word s!"\\{name}_" ++ braces (hole 0 ++ word "=" ++ hole 1) ++ word "^" ++
        braces (hole 2) ++ parens (hole 3) }

/-- Variables, functions and verbatim text. -/
def bindingCommands : List Command :=
  [ row "let" (.atLeast 1) "(let <name> [value])"
      { slots := [nameAs "variable name", { position := .value, missing := ['0'] }]
        template := hole 0 ++ word "=" ++ hole 1 },
    row "set" (.atLeast 1) "(set <name> [value])"
      { slots := [nameAs "variable name", { position := .value, missing := ['0'] }]
        template := hole 0 ++ word "\\to " ++ hole 1 },
    row "params" (.atLeast 0) "(params <a> <b> ...)" (ofAll (sequence 0 ",")),
    row "func" (.atLeast 3) "(func <name> (params <p> ...) <body>)"
      { requirement := some (.paramsAt 1)
        slots := nameAs "function name" :: values 2
        template := hole 0 ++ parens (hole 1) ++ word "=" ++ hole 2 },
    row "subst" (.atLeast 1) "(subst <name> <a> ...)"
      { slots := [nameAs "function name"]
        rest := some .value
        template := hole 0 ++ parens (sequence 1 ",") },
    row "latex" (.atLeast 0) "(latex <token> ...)"
      { rest := some .verbatim
        template := sequence 0 " " } ]

/-- Sums, products, powers, roots and logarithms. -/
def arithmeticCommands : List Command :=
  [ operation "add" "+",
    operation "sub" "-",
    operation "mul" "\\cdot",
    row "pow" (.atLeast 2) "(pow <base> <exponent>)"
      (ofValues 2 (parens (parens (hole 0) ++ word "^" ++ braces (parens (hole 1))))),
    row "frac" (.atLeast 2) "(frac <numerator> <denominator>)"
      (ofValues 2 (word "\\frac" ++ braces (hole 0) ++ braces (hole 1))),
    row "root" (.atLeast 2) "(root <radicand> <index>)"
      (ofValues 2 (word "\\sqrt" ++ brackets (hole 1) ++ braces (hole 0))),
    row "sqrt" (.atLeast 1) "(sqrt <value>)" (ofValues 1 (word "\\sqrt" ++ braces (hole 0))),
    row "log" (.atLeast 2) "(log <value> <base>)"
      (ofValues 2 (word "\\log_" ++ braces (hole 1) ++ parens (hole 0))),
    functionOfOne "ln" "value" (word "\\ln"),
    row "neg" (.atLeast 1) "(neg <value>)" (ofValues 1 (parens (word "-" ++ hole 0))),
    row "fact" (.atLeast 1) "(fact <value>)" (ofValues 1 (parens (hole 0) ++ word "!")) ]

/-- Points, polygons and actions. -/
def geometryCommands : List Command :=
  [ row "point" (.atLeast 2) "(point <x> <y>)" (ofValues 2 (parens (sequence 0 ","))),
    row "poly" (.atLeast 2) "(poly <p1> <p2> ...)"
      { requirement := some .noNumbers
        rest := some .value
        template := operatorName "polygon" ++ parens (sequence 0 ",") },
    row "dist" (.atLeast 2) "(dist <p1> <p2>)"
      (ofValues 2 (operatorName "distance" ++ parens (sequence 0 ","))),
    row "mid" (.atLeast 2) "(mid <p1> <p2>)"
      (ofValues 2 (operatorName "midpoint" ++ parens (sequence 0 ","))),
    row "action" (.atLeast 1) "(action <update> ...)"
      { requirement := some .noNumbers
        rest := some .value
        template := sequence 0 "," },
    row "xcoord" (.atLeast 1) "(xcoord <point>)" (ofValues 1 (hole 0 ++ word ".x")),
    row "ycoord" (.atLeast 1) "(ycoord <point>)" (ofValues 1 (hole 0 ++ word ".y")) ]

/-- Lists and statistics. -/
def collectionCommands : List Command :=
  [ row "list" (.atLeast 0) "(list <a> <b> ...)" (ofAll (tallBrackets (sequence 0 ","))),
    row "index" (.atLeast 2) "(index <list> <position>)"
      (ofValues 2 (hole 0 ++ tallBrackets (hole 1))),
    row "listcomp" (.exactly 3) "(listcomp <list> <variable> <body>)"
      { slots := [{ position := .value }, nameAs "bound variable", { position := .value }]
        template :=
          tallBrackets (hole 2 ++ operatorName "for" ++ hole 1 ++ word "=" ++ hole 0) },
    functionOfAll "len" "list" (operatorName "length"),
    functionOfAll "mean" "a" (operatorName "mean"),
    functionOfAll "median" "a" (operatorName "median"),
    functionOfAll "mad" "a" (operatorName "mad"),
    functionOfAll "min" "a" (word "\\min"),
    functionOfAll "max" "a" (word "\\max") ]

/-- Trigonometric and rounding functions. -/
def trigCommands : List Command :=
  [ functionOfOne "sin" "angle" (word "\\sin"),
    functionOfOne "cos" "angle" (word "\\cos"),
    functionOfOne "tan" "angle" (word "\\tan"),
    functionOfOne "asin" "value" (word "\\arcsin"),
    functionOfOne "acos" "value" (word "\\arccos"),
    functionOfOne "atan" "value" (word "\\arctan"),
    functionOfOne "sinh" "value" (word "\\sinh"),
    functionOfOne "cosh" "value" (word "\\cosh"),
    functionOfOne "tanh" "value" (word "\\tanh"),
    functionOfOne "asinh" "value" (word "\\arcsinh"),
    functionOfOne "acosh" "value" (word "\\arccosh"),
    functionOfOne "atanh" "value" (word "\\arctanh"),
    functionOfOne "floor" "value" (operatorName "floor"),
    functionOfOne "ceil" "value" (operatorName "ceil"),
    functionOfOne "round" "value" (operatorName "round"),
    row "atan2" (.atLeast 2) "(atan2 <y> <x>)"
      (ofValues 2 (word "\\arctan" ++ parens (sequence 0 ","))) ]

/-- Relations and conditions. -/
def logicCommands : List Command :=
  [ relation "eq" "=",
    relation "gt" ">",
    relation "lt" "<",
    relation "geq" "\\ge",
    relation "leq" "\\le",
    row "if" (.atLeast 2) "(if <condition> <expression>)"
      (ofValues 2 (hole 1 ++ tallBraces (hole 0))),
    row "piecewise" (.atLeast 3) "(piecewise <condition> <then> <else>)"
      (ofValues 3 (tallBraces (hole 0 ++ word ":" ++ hole 1 ++ word "," ++ hole 2))) ]

/-- Derivatives, integrals, sums and products over a range. -/
def calculusCommands : List Command :=
  [ row "deriv" (.atLeast 2) "(deriv <variable> <body>)"
      { slots := nameAs "bound variable" :: values 1
        template := word "\\frac" ++ braces (word "d") ++ braces (word "d" ++ hole 0) ++
          parens (hole 1) },
    row "int" (.atLeast 4) "(int <variable> <lower> <upper> <body>)"
      { slots := nameAs "bound variable" :: values 3
        template := word "\\int_" ++ braces (hole 1) ++ word "^" ++ braces (hole 2) ++
          parens (hole 3) ++ word "d" ++ hole 0 },
    overRange "sum",
    overRange "prod" ]

/-- Greek letters and other constants. -/
def constantCommands : List Command :=
  [ constant "alpha" (word "\\alpha"),
    constant "beta" (word "\\beta"),
    constant "theta" (word "\\theta"),
    constant "pi" (word "\\pi"),
    constant "tau" (word "\\tau"),
    constant "phi" (word "\\phi"),
    constant "inf" (word "\\infty"),
    constant "ninf" (word "-\\infty"),
    constant "ellipsis" (word "..."),
    constant "empty" (tallBrackets (word "")) ]

/-- The commands of a family. -/
def commands : Family → List Command
  | .binding => bindingCommands
  | .arithmetic => arithmeticCommands
  | .geometry => geometryCommands
  | .collections => collectionCommands
  | .trig => trigCommands
  | .logic => logicCommands
  | .calculus => calculusCommands
  | .constants => constantCommands

/-- All families, in the order in which they are registered. -/
def all : List Family :=
  [.binding, .arithmetic, .geometry, .collections, .trig, .logic, .calculus, .constants]

end Family

/-- Every command of the catalogue. -/
def catalogue : List Command := Family.all.flatMap Family.commands

/-- The registry of all commands of the catalogue. -/
def Registry.standard : Registry := Registry.empty.registerAll catalogue

end GraphTex
