/-!
# Command-line arguments

The words behind the name of the program are read from left to right, first up to the subcommand
and then behind it. A nesting limit or a path is checked only when the next option or path begins
or the words end, so a fault of a later word may be found before a fault of an earlier one. The
nesting limit and the verbosity may stand on both sides of the subcommand, and the side behind it
wins.
-/

namespace GraphTex.CommandLine

/-- The work to be done. -/
inductive Task where
  /-- Compile a file, with the result as JSON or as text. -/
  | compile (path : String) (json : Bool)
  /-- Compile a file or all sources below a directory. -/
  | check (path : String)
  /-- Show the trees of a file. -/
  | ast (path : String)
  /-- List the commands. -/
  | commands
  deriving DecidableEq, Repr

/-- A task with the options that all tasks have. -/
structure Invocation where
  task : Task
  maxDepth : Nat
  verbosity : Nat
  deriving DecidableEq, Repr

/-- Why there is no task. -/
inductive Stop where
  /-- Help is asked for. -/
  | help
  /-- The version is asked for. -/
  | version
  /-- There are no words at all. -/
  | nothingGiven
  /-- There are options, but no subcommand. -/
  | missingSubcommand
  /-- A subcommand lacks its path. -/
  | missingPath
  /-- An option or a word that is not known at its place. -/
  | unknownArgument
  /-- A word in the place of the subcommand that is none. -/
  | unknownSubcommand
  /-- A value that is no number. -/
  | invalidNumber
  /-- A value that is absent, or an empty path. -/
  | emptyValue
  /-- An option that stands twice. -/
  | repeatedOption
  /-- A value for an option that has none. -/
  | unneededValue
  deriving DecidableEq, Repr

/-- The subcommands. -/
inductive Subcommand where
  | compile
  | check
  | ast
  | commands
  deriving DecidableEq, Repr

/-- The subcommand with a name. -/
def Subcommand.ofName? : String → Option Subcommand
  | "compile" => some .compile
  | "check" => some .check
  | "ast" => some .ast
  | "commands" => some .commands
  | _ => none

/-- The subcommand takes a path. -/
def Subcommand.takesPath : Subcommand → Bool
  | .commands => false
  | _ => true

/-- The options. -/
inductive Flag where
  | maxDepth
  | verbose
  | json
  | help
  | version
  deriving DecidableEq, Repr

/-- The option with a long name, before the subcommand or behind it. -/
def Flag.ofLong? (level : Option Subcommand) (name : List Char) : Option Flag :=
  match String.ofList name with
  | "max-depth" => some .maxDepth
  | "verbose" => some .verbose
  | "help" => some .help
  | "version" => if level = none then some .version else none
  | "json" => if level = some .compile then some .json else none
  | _ => none

/-- The option with a short name, before the subcommand or behind it. -/
def Flag.ofShort? (level : Option Subcommand) : Char → Option Flag
  | 'v' => some .verbose
  | 'h' => some .help
  | 'V' => if level = none then some .version else none
  | _ => none

/-- A value that has been read and is not checked yet. -/
inductive Pending where
  /-- A nesting limit, which may still lack its value. -/
  | limit (value : Option String)
  | path (value : String)
  deriving DecidableEq, Repr

/-- What has been read on one side of the subcommand. -/
structure Reading where
  maxDepth : Option Nat := none
  verbosity : Option Nat := none
  json : Bool := false
  path : Option String := none
  pending : Option Pending := none
  /-- Only paths follow. -/
  pathsOnly : Bool := false
  deriving DecidableEq, Repr

/-- The number below `2 ^ 64` that a word writes, with or without a plus sign in front. -/
def number? (word : String) : Option Nat :=
  let digits :=
    match word.toList with
    | '+' :: rest => rest
    | all => all
  if digits.isEmpty || !digits.all Char.isDigit then none
  else
    let n := digits.foldl (fun n c => 10 * n + (c.toNat - '0'.toNat)) 0
    if n < UInt64.size then some n else none

namespace Reading

/-- Checks the value that is pending. -/
def settle (r : Reading) : Except Stop Reading :=
  match r.pending with
  | none => .ok r
  | some (.limit none) => .error .emptyValue
  | some (.limit (some word)) =>
    if r.maxDepth.isSome then .error .repeatedOption
    else
      match number? word with
      | some n => .ok { r with maxDepth := some n, pending := none }
      | none => .error .invalidNumber
  | some (.path path) =>
    if path = "" then .error .emptyValue else .ok { r with path := some path, pending := none }

/-- The next word is the value of the nesting limit. -/
def awaitsValue (r : Reading) : Bool := r.pending == some (.limit none)

/-- A path has been read. -/
def hasPath (r : Reading) : Bool :=
  r.path.isSome ||
    match r.pending with
    | some (.path _) => true
    | _ => false

/-- Takes an option that has no value. -/
def takeFlag (r : Reading) (flag : Flag) : Except Stop Reading := do
  let r ← r.settle
  match flag with
  | .maxDepth => pure { r with pending := some (.limit none) }
  | .verbose => pure { r with verbosity := some (min 255 (r.verbosity.getD 0 + 1)) }
  | .json => if r.json then throw .repeatedOption else pure { r with json := true }
  | .help => throw .help
  | .version => throw .version

/-- Takes an option with the value attached to it. -/
def takeAttached (r : Reading) (flag : Flag) (value : String) : Except Stop Reading := do
  match flag with
  | .maxDepth =>
    let r ← r.settle
    settle { r with pending := some (.limit (some value)) }
  | _ => throw .unneededValue

/-- Takes a word of long form, given without its two dashes. -/
def takeLong (level : Option Subcommand) (r : Reading) (word : List Char) :
    Except Stop Reading :=
  match Flag.ofLong? level (word.takeWhile (· != '=')), word.dropWhile (· != '=') with
  | none, _ => .error .unknownArgument
  | some flag, [] => r.takeFlag flag
  | some flag, _ :: value => r.takeAttached flag (String.ofList value)

/-- Takes a word of short form, given without its dash: each character is an option. -/
def takeShort (level : Option Subcommand) (r : Reading) : List Char → Except Stop Reading
  | [] => .ok r
  | c :: rest => do
    match Flag.ofShort? level c with
    | none => throw .unknownArgument
    | some flag =>
      let r ← r.takeFlag flag
      takeShort level r rest

/-- Takes a word that is no option, behind a subcommand. -/
def takePath (subcommand : Subcommand) (r : Reading) (word : String) : Except Stop Reading := do
  if subcommand.takesPath && !r.hasPath then
    let r ← r.settle
    pure { r with pending := some (.path word) }
  else throw .unknownArgument

/-- Takes a word that is no subcommand: an option, the end of the options, a value or a path.
`other` takes what is none of these. -/
def take (level : Option Subcommand) (other : Reading → String → Except Stop Reading)
    (r : Reading) (word : String) : Except Stop Reading :=
  if r.pathsOnly then other r word
  else
    match word.toList with
    | ['-', '-'] => .ok { r with pathsOnly := true }
    | '-' :: '-' :: rest => r.takeLong level rest
    | '-' :: c :: rest => r.takeShort level (c :: rest)
    | _ =>
      if r.awaitsValue then .ok { r with pending := some (.limit (some word)) } else other r word

/-- Reads the words behind a subcommand. -/
def behind (subcommand : Subcommand) (words : List String) : Except Stop Reading := do
  let r ← words.foldlM (take (some subcommand) (takePath subcommand)) {}
  r.settle

/-- A word that is no option, where the subcommand is expected. -/
def takeStray (r : Reading) (word : String) : Except Stop Reading :=
  if r.pathsOnly && (word = "help" || (Subcommand.ofName? word).isSome) then
    .error .unknownArgument
  else .error .unknownSubcommand

/-- What asking for help gives, with the words behind. -/
def helpOn : List String → Stop
  | [] => .help
  | [word] =>
    if word = "help" || (Subcommand.ofName? word).isSome then .help else .unknownSubcommand
  | _ => .unknownSubcommand

/-- Reads words up to the subcommand, which is given back with the words behind it. -/
def upTo (r : Reading) :
    List String → Except Stop (Reading × Option (Subcommand × List String))
  | [] => .ok (r, none)
  | word :: words => do
    if !r.pathsOnly && !r.awaitsValue then
      if word = "help" then throw (helpOn words)
      if let some subcommand := Subcommand.ofName? word then
        return (r, some (subcommand, words))
    let r ← r.take none takeStray word
    r.upTo words

/-- The task of a subcommand. -/
def task (r : Reading) : Subcommand → Except Stop Task
  | .compile =>
    match r.path with
    | some path => .ok (.compile path r.json)
    | none => .error .missingPath
  | .check => .ok (.check (r.path.getD "."))
  | .ast =>
    match r.path with
    | some path => .ok (.ast path)
    | none => .error .missingPath
  | .commands => .ok .commands

end Reading

/-- Reads the words behind the name of the program. -/
def Invocation.ofWords (words : List String) : Except Stop Invocation := do
  match ← Reading.upTo {} words with
  | (front, none) =>
    let front ← front.settle
    if front.maxDepth.isNone && front.verbosity.isNone then throw .nothingGiven
    else throw .missingSubcommand
  | (front, some (subcommand, rest)) =>
    let back ← Reading.behind subcommand rest
    let task ← back.task subcommand
    let front ← front.settle
    pure
      { task
        maxDepth := (back.maxDepth.or front.maxDepth).getD 256
        verbosity := (back.verbosity.or front.verbosity).getD 0 }

end GraphTex.CommandLine
