import GraphTex.CommandLine.Arguments
import GraphTex.Compiler
import GraphTex.Files
import GraphTex.Node.Json

/-!
# Running the program

A run turns the words of the command line, the standard input and the files that can be seen into
an outcome: the text printed, the diagnostics shown, the status line behind them and the exit code.
-/

namespace GraphTex.CommandLine

/-- What a run leaves behind. -/
structure Outcome where
  exit : Nat := 0
  stdout : String := ""
  /-- The diagnostics shown, in order. -/
  diagnostics : List Diagnostic := []
  /-- The last line shown behind the diagnostics. -/
  status : Option String := none
  deriving DecidableEq, Repr

/-- The surroundings of a run. -/
structure Surroundings where
  files : Files
  stdin : ByteArray := .empty

/-- The exit code of a run. -/
def exitCode (success : Bool) : Nat := if success then 0 else 1

/-- The text of a value on standard output. -/
def printedJson (j : Json) : String := j.pretty ++ "\n"

/-- The source at a path; a single dash is the standard input. -/
def readSource (s : Surroundings) (path : String) : Except Diagnostic Source :=
  if path = "-" then
    match decodeText? s.stdin with
    | some content => .ok ⟨"<stdin>", content⟩
    | none => .error (Files.invalidPath "stdin" "<stdin>" FileError.notText.reason)
  else (s.files.read path).map fun content => ⟨path, content⟩

/-- A diagnostic as a JSON object. -/
def diagnosticJson (d : Diagnostic) : Json :=
  .obj
    [ ("category", .str d.fault.category.name),
      ("code", .str d.code),
      ("message", .str d.message),
      ("span", d.span.toJson) ]

/-- The result of compiling as a JSON object. -/
def compilationJson (result : Compilation) : Json :=
  .obj
    [ ("output", .orNull (fun output => .str (String.ofList output)) result.output),
      ("diagnostics", .arr (result.diagnostics.map diagnosticJson)) ]

/-- Compiles one source. -/
def compile (c : Compiler) (s : Surroundings) (path : String) (json : Bool) : Outcome :=
  match readSource s path with
  | .error d => { exit := 1, diagnostics := [d] }
  | .ok source =>
    let result := c.compile source
    if json then
      { exit := exitCode result.diagnostics.isEmpty
        stdout := printedJson (compilationJson result) }
    else
      match result.output with
      | some output => { stdout := String.ofList output, status := some "No errors found." }
      | none =>
        { exit := 1
          diagnostics := result.diagnostics
          status := some s!"{result.diagnostics.length} error(s) found." }

/-- How far a check has come. -/
structure Progress where
  sink : Sink := {}
  failed : Nat := 0
  stdout : String := ""
  diagnostics : List Diagnostic := []

/-- Checks one more file, with the sink of the files before it. -/
def checkFile (c : Compiler) (files : Files) (p : Progress) (path : String) : Progress :=
  match files.read path with
  | .error d => { p with failed := p.failed + 1, diagnostics := p.diagnostics ++ [d] }
  | .ok content =>
    match c.compileInto p.sink ⟨path, content⟩ with
    | (some _, sink) => { p with sink, stdout := p.stdout ++ s!"✓ {path}\n" }
    | (none, sink) =>
      let (found, sink) := sink.take
      { sink
        failed := p.failed + 1
        stdout := p.stdout ++ s!"✗ {path} ({found.length} error(s))\n"
        diagnostics := p.diagnostics ++ found }

/-- Checks a file, or all sources below a directory. -/
def check (c : Compiler) (files : Files) (path : String) : Outcome :=
  match files.discover path with
  | .error d => { exit := 1, diagnostics := [d] }
  | .ok [] => { stdout := s!"No .dec files found under {path}\n" }
  | .ok paths =>
    let p := paths.foldl (checkFile c files) {}
    let passed := paths.length - p.failed
    { exit := exitCode (p.failed == 0)
      stdout := p.stdout
      diagnostics := p.diagnostics
      status := some <|
        if p.failed = 0 then s!"All {passed} file(s) compiled."
        else s!"{p.failed} of {paths.length} file(s) failed." }

/-- Shows the trees of a source. -/
def ast (c : Compiler) (s : Surroundings) (path : String) : Outcome :=
  match readSource s path with
  | .error d => { exit := 1, diagnostics := [d] }
  | .ok source =>
    let result := c.parse source.content
    let sink := (Sink.about ⟨"input", source.content⟩).record result.reports
    { exit := exitCode sink.isValid
      stdout := printedJson (.arr (result.value.map Node.toJson))
      diagnostics := sink.diagnostics }

/-- A text with blanks behind it up to a width. -/
def padded (width : Nat) (s : String) : String :=
  s ++ String.ofList (List.replicate (width - s.length) ' ')

/-- The line of a command in the list of commands. -/
def commandLine (c : Command) : String :=
  s!"  {padded 10 (String.ofList c.name)} {padded 12 c.arity.text} {c.usage}\n"

/-- Lists the commands. -/
def commands (r : Registry) : Outcome := { stdout := String.join (r.sorted.map commandLine) }

/-- Does a task. -/
def perform (i : Invocation) (s : Surroundings) : Outcome :=
  let c : Compiler := { maxDepth := i.maxDepth }
  match i.task with
  | .compile path json => compile c s path json
  | .check path => check c s.files path
  | .ast path => ast c s path
  | .commands => commands c.registry

/-- The outcome where there is no task. -/
def stopped : Stop → Outcome
  | .help => {}
  | .version => { stdout := "dec 0.1.0\n" }
  | _ => { exit := 2 }

/-- Runs the program on the words of its command line. -/
def run (words : List String) (s : Surroundings) : Outcome :=
  match Invocation.ofWords words with
  | .ok invocation => perform invocation s
  | .error stop => stopped stop

end GraphTex.CommandLine
