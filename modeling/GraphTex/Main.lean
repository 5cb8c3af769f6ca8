import GraphTex.CommandLine.Run

/-!
# The program

The outer layer: it finds out what stands at the paths that a task needs, runs the task on that,
and prints the outcome.
-/

namespace GraphTex.Main

open CommandLine

/-- The words shown when help is asked for. -/
def usage : String :=
  "Compiles prefix expressions into graphing-calculator LaTeX.\n\n" ++
  "Usage: dec [--max-depth <N>] [-v] <command>\n\n" ++
  "  compile <file> [--json]   compile a source, - for standard input\n" ++
  "  check [path]              compile a file or all .dec files below a directory\n" ++
  "  ast <file>                show the trees of a source as JSON\n" ++
  "  commands                  list the commands\n"

/-- The reason behind a failed access. -/
def fileError : IO.Error → FileError
  | .noFileOrDirectory .. => .missing
  | .noSuchThing .. => .missing
  | .inappropriateType .. => .notDirectory
  | e => .other (toString e)

/-- The regular files below a directory, each as the list of names that leads to it. Links are not
followed. -/
partial def filesBelow (directory : String) : IO (List (List String)) := do
  let mut found := []
  for entry in ← (System.mkFilePath [directory]).readDir do
    let path := joinPath directory [entry.fileName]
    let info ← (System.mkFilePath [path]).symlinkMetadata
    if info.type == .dir then
      found := found ++ (← filesBelow path).map (entry.fileName :: ·)
    else if info.type == .file then
      found := found ++ [[entry.fileName]]
  return found

/-- What stands at a path. -/
def look (path : String) : IO (Except FileError Place) := do
  try
    let info ← (System.mkFilePath [path]).metadata
    if info.type == .dir then return .ok (.directory (← filesBelow path))
    else return .ok (.file (← IO.FS.readBinFile path))
  catch e => return .error (fileError e)

/-- What stands at the paths that a task needs. -/
def lookAll : Task → IO (List (String × Except FileError Place))
  | .commands => return []
  | .compile path _ | .ast path => return [(path, ← look path)]
  | .check path => do
    let place ← look path
    let seen : Files := { look := fun _ => place }
    let below := ((seen.discover path).toOption.getD []).filter (· != path)
    return (path, place) :: (← below.mapM fun file => return (file, ← look file))

/-- Prints an outcome and gives its exit code. -/
def print (outcome : Outcome) : IO UInt32 := do
  IO.print outcome.stdout
  (← IO.getStdout).flush
  for d in outcome.diagnostics do
    IO.eprintln s!"{d.source.name}:{d.span.start}: {d.message} [{d.code}]"
    if let some help := d.fault.help then IO.eprintln s!"  help: {help}"
  if let some status := outcome.status then IO.eprintln status
  return outcome.exit.toUInt32

/-- Runs the program on the words of its command line. -/
def run (words : List String) : IO UInt32 := do
  match Invocation.ofWords words with
  | .error stop =>
    if stop = .help then IO.print usage
    else if stop ≠ .version then IO.eprint usage
    print (stopped stop)
  | .ok invocation =>
    let places ← lookAll invocation.task
    let readsInput := invocation.task matches .compile "-" _ | .ast "-"
    let stdin ← if readsInput then (← IO.getStdin).readBinToEnd else pure .empty
    let files : Files := { look := fun path => (places.lookup path).getD (.error .missing) }
    print (perform invocation { files, stdin })

end GraphTex.Main

def main (words : List String) : IO UInt32 := GraphTex.Main.run words
