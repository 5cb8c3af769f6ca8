import GraphTex.Files

/-!
# File trees

A file tree is a directory held in memory. A path is followed name by name from the root: an empty
name and a single point stay in place, two points go up, and nothing can be followed through a file.
The directories outside the tree are seen as empty.
-/

namespace GraphTex

/-- A file or a directory. -/
inductive Entry where
  | file (content : ByteArray)
  | directory (entries : List (String × Entry))

/-- The entries of a directory under their names. -/
abbrev Entries := List (String × Entry)

/-- A directory held in memory. -/
structure FileTree where
  entries : Entries := []

namespace Entry

mutual

/-- The regular files below an entry, each as the list of names that leads to it. -/
def files : Entry → List (List String)
  | .file _ => [[]]
  | .directory entries => filesOf entries

/-- The regular files below the entries of a directory. -/
def filesOf : Entries → List (List String)
  | [] => []
  | (name, entry) :: rest => entry.files.map (name :: ·) ++ filesOf rest

end

/-- The number of bytes that a name may have. -/
def maxNameBytes : Nat := 255

/-- Follows names from an entry. The directories above it, as far as they belong to the tree, are
given from the nearest on. -/
def follow : List Entries → Entry → List String → Except FileError Entry
  | _, entry, [] => .ok entry
  | _, .file _, _ :: _ => .error .notDirectory
  | above, .directory entries, name :: names =>
    if name = "" ∨ name = "." then follow above (.directory entries) names
    else if name = ".." then
      match above with
      | parent :: above => follow above (.directory parent) names
      | [] => follow [] (.directory []) names
    else if maxNameBytes < name.utf8ByteSize then .error .nameTooLong
    else
      match entries.lookup name with
      | some entry => follow (entries :: above) entry names
      | none => .error .missing

end Entry

/-- The texts between the slashes of a text. -/
def splitAtSlashes : Text → List Text
  | [] => [[]]
  | c :: rest =>
    if c = '/' then [] :: splitAtSlashes rest
    else
      match splitAtSlashes rest with
      | [] => [[c]]
      | first :: others => (c :: first) :: others

/-- The names between the slashes of a path. -/
def namesOfPath (path : String) : List String := (splitAtSlashes path.toList).map String.ofList

namespace FileTree

/-- The number of bytes that a path may have. -/
def maxPathBytes : Nat := 4095

/-- The entry at a path, which starts at the root of the tree unless it begins with a slash. -/
def get (t : FileTree) (path : String) : Except FileError Entry :=
  if path.toList.contains '\x00' then .error .nulInName
  else if path = "" then .error .missing
  else if maxPathBytes < path.utf8ByteSize then .error .nameTooLong
  else
    let entries := if path.toList.head? = some '/' then [] else t.entries
    Entry.follow [] (.directory entries) (namesOfPath path)

/-- The files of the tree, as a program in its root sees them. -/
def toFiles (t : FileTree) : Files where
  look path :=
    match t.get path with
    | .ok (.file content) => .ok (.file content)
    | .ok (.directory entries) => .ok (.directory (Entry.filesOf entries))
    | .error e => .error e

/-- Gives a name to an entry, in place of what had that name. -/
def put (name : String) (entry : Entry) (entries : Entries) : Entries :=
  entries.filter (·.1 != name) ++ [(name, entry)]

/-- Makes the directories on the way along names and, if there is a content, a file at their
end. -/
def grow (content : Option ByteArray) : List String → Entries → Entries
  | [], entries => entries
  | name :: names, entries =>
    match names, content with
    | [], some bytes => put name (.file bytes) entries
    | _, _ =>
      let below :=
        match entries.lookup name with
        | some (.directory below) => below
        | _ => []
      put name (.directory (grow content names below)) entries

/-- The names that lead to a new entry. -/
def namesToGrow (path : String) : List String :=
  (namesOfPath path).filter fun name => name != "" && name != "."

/-- Adds a file, with the directories on the way to it. -/
def addFile (t : FileTree) (path : String) (content : ByteArray) : FileTree :=
  ⟨grow (some content) (namesToGrow path) t.entries⟩

/-- Adds a directory, with those on the way to it. -/
def addDirectory (t : FileTree) (path : String) : FileTree :=
  ⟨grow none (namesToGrow path) t.entries⟩

end FileTree

end GraphTex
