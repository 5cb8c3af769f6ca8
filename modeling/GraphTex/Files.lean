import GraphTex.Sink

/-!
# Files

What a program learns about files is what stands at a path: the bytes of a file, or the names of
all files below a directory. Sources are files that hold text; below a directory they are the files
with the extension `dec`, in the order of their path components.
-/

namespace GraphTex

/-- Why nothing can be had from a path. -/
inductive FileError where
  | missing
  | notDirectory
  | isDirectory
  | notText
  | nulInName
  | nameTooLong
  /-- Any other reason, as the system words it. -/
  | other (reason : String)
  deriving DecidableEq, Repr

/-- The reason in words. -/
def FileError.reason : FileError → String
  | .missing => "No such file or directory (os error 2)"
  | .notDirectory => "Not a directory (os error 20)"
  | .isDirectory => "Is a directory (os error 21)"
  | .notText => "stream did not contain valid UTF-8"
  | .nulInName => "file name contained an unexpected NUL byte"
  | .nameTooLong => "File name too long (os error 36)"
  | .other reason => reason

/-- What stands at a path. -/
inductive Place where
  /-- A regular file with its bytes. -/
  | file (content : ByteArray)
  /-- A directory with the regular files below it, each as the list of names that leads to it. -/
  | directory (files : List (List String))

/-- The files that a program can see. -/
structure Files where
  look : String → Except FileError Place

/-- The text that bytes encode, if they encode one. -/
def decodeText? (bytes : ByteArray) : Option Text := (String.fromUTF8? bytes).map String.toList

/-- The text behind the last point of a file name, unless there is no point or the last one is the
first character. -/
def extension? (name : String) : Option Text :=
  match name.toList.reverse.span (· != '.') with
  | (extension, _ :: _ :: _) => some extension.reverse
  | _ => none

/-- The list of names ends with that of a source file. -/
def isSourceName (names : List String) : Bool :=
  (names.getLast?.bind extension?) == some "dec".toList

/-- The path that leads by further names from a directory. -/
def joinPath (directory : String) (names : List String) : String :=
  (if directory.toList.getLast? = some '/' then directory else directory ++ "/") ++
    "/".intercalate names

namespace Files

/-- A diagnostic on a path that cannot be used, in the given context. -/
def invalidPath (context path reason : String) : Diagnostic :=
  .standalone (.fallback context.toList) (.invalidPath path reason)

/-- The text of the file at a path. -/
def read (f : Files) (path : String) : Except Diagnostic Text :=
  match f.look path with
  | .ok (.file content) =>
    match decodeText? content with
    | some text => .ok text
    | none => .error (invalidPath "read_file" path FileError.notText.reason)
  | .ok (.directory _) => .error (invalidPath "read_file" path FileError.isDirectory.reason)
  | .error e => .error (invalidPath "read_file" path e.reason)

/-- The sources among the files below a directory, in the order of their names. -/
def sourceNames (files : List (List String)) : List (List String) :=
  (files.filter isSourceName).mergeSort fun a b =>
    !List.lex (b.map String.toList) (a.map String.toList) Text.isBefore

/-- The paths of the sources to be had from a path: the path itself if it leads to a file, or else
all sources below it. -/
def discover (f : Files) (path : String) : Except Diagnostic (List String) :=
  match f.look path with
  | .ok (.file _) => .ok [path]
  | .ok (.directory files) => .ok ((sourceNames files).map (joinPath path))
  | .error e =>
    .error (invalidPath "discover_source_files" path
      ("IO error for operation on " ++ path ++ ": " ++ e.reason))

end Files

end GraphTex
