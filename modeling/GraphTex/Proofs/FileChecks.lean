import GraphTex.CommandLine.Run
import GraphTex.FileTree
import GraphTex.Proofs.Compiling
import Mathlib.Tactic.SplitIfs

/-!
# Checking many files with one sink

A check goes through its files with a single sink, which it empties only behind a file that fails
and does not touch at a file that cannot be read. None of this can be seen from outside: each file
adds the line and the diagnostics that it has by itself (`checkFile_alone`), so a check is the
conjunction of independent compiles (`check_alone`).
-/

namespace GraphTex

namespace Files

variable {f : Files} {path : String}

/-- A file can be read exactly if it is a regular file that holds a text. -/
theorem read_eq_ok_iff {content : Text} :
    f.read path = .ok content ↔
      ∃ bytes, f.look path = .ok (.file bytes) ∧ decodeText? bytes = some content := by
  unfold read
  constructor
  · intro h
    split at h
    · next bytes hlook =>
      split at h
      · next text htext =>
        cases h
        exact ⟨bytes, hlook, htext⟩
      · cases h
    · cases h
    · cases h
  · rintro ⟨bytes, hlook, htext⟩
    rw [hlook]
    dsimp only
    rw [htext]

/-- Whatever the reason, a file that cannot be read gives a diagnostic on its path. -/
theorem exists_reason {d : Diagnostic} (h : f.read path = .error d) :
    ∃ reason, d = invalidPath "read_file" path reason := by
  unfold read at h
  split at h
  · split at h
    · cases h
    · cases h
      exact ⟨_, rfl⟩
  · cases h
    exact ⟨_, rfl⟩
  · cases h
    exact ⟨_, rfl⟩

end Files

namespace CommandLine

section Alone

variable (c : Compiler) (files : Files) (path : String)

/-- The line of a file that is checked alone. A file that cannot be read has none. -/
def lineAlone : String :=
  match files.read path with
  | .error _ => ""
  | .ok content =>
    let result := c.compile ⟨path, content⟩
    if result.output.isSome then s!"✓ {path}\n"
    else s!"✗ {path} ({result.diagnostics.length} error(s))\n"

/-- The diagnostics of a file that is checked alone. -/
def diagnosticsAlone : List Diagnostic :=
  match files.read path with
  | .error d => [d]
  | .ok content => (c.compile ⟨path, content⟩).diagnostics

/-- The file cannot be read, or it has no output. -/
def failsAlone : Bool :=
  match files.read path with
  | .error _ => true
  | .ok content => (c.compile ⟨path, content⟩).output.isNone

end Alone

variable (c : Compiler)

/-- **What one file adds to a check** does not depend on the files before it. -/
theorem checkFile_alone (files : Files) (p : Progress) (path : String) :
    (checkFile c files p path).failed =
        p.failed + (if failsAlone c files path then 1 else 0) ∧
      (checkFile c files p path).stdout = p.stdout ++ lineAlone c files path ∧
      (checkFile c files p path).diagnostics = p.diagnostics ++ diagnosticsAlone c files path := by
  unfold checkFile failsAlone lineAlone diagnosticsAlone
  cases files.read path with
  | error d => exact ⟨rfl, (String.append_empty).symm, rfl⟩
  | ok content =>
    have houtput := c.compileInto_output p.sink ⟨path, content⟩
    have hdiagnostics := c.compileInto_diagnostics p.sink ⟨path, content⟩
    dsimp only
    generalize c.compileInto p.sink ⟨path, content⟩ = compiled at houtput hdiagnostics ⊢
    obtain ⟨output, sink⟩ := compiled
    cases output with
    | none =>
      simp only [← houtput, ← hdiagnostics]
      exact ⟨rfl, rfl, rfl⟩
    | some written =>
      -- an output means that nothing was reported, so the file adds no diagnostics
      simp only [c.diagnostics_of_output houtput.symm, ← houtput]
      exact ⟨rfl, rfl, (List.append_nil _).symm⟩

/-- **What a whole check adds up to.** -/
theorem foldl_checkFile (files : Files) (paths : List String) (p : Progress) :
    (paths.foldl (checkFile c files) p).failed =
        p.failed + paths.countP (failsAlone c files) ∧
      (paths.foldl (checkFile c files) p).stdout =
        p.stdout ++ String.join (paths.map (lineAlone c files)) ∧
      (paths.foldl (checkFile c files) p).diagnostics =
        p.diagnostics ++ paths.flatMap (diagnosticsAlone c files) := by
  induction paths generalizing p with
  | nil => simp
  | cons path paths ih =>
    obtain ⟨hfailed, hstdout, hdiagnostics⟩ := checkFile_alone c files p path
    obtain ⟨ihfailed, ihstdout, ihdiagnostics⟩ := ih (checkFile c files p path)
    rw [List.foldl_cons, ihfailed, ihstdout, ihdiagnostics, hfailed, hstdout, hdiagnostics]
    refine ⟨?_, ?_, ?_⟩
    · rw [List.countP_cons, Nat.add_right_comm, Nat.add_assoc]
    · rw [List.map_cons, String.join_cons, String.append_assoc]
    · rw [List.flatMap_cons, List.append_assoc]

/-- The outcome of a check, by the files one by one. -/
theorem check_eq {files : Files} {path : String} {paths : List String}
    (hfound : files.discover path = .ok paths) (hsome : paths ≠ []) :
    check c files path =
      { exit := exitCode (paths.countP (failsAlone c files) == 0)
        stdout := String.join (paths.map (lineAlone c files))
        diagnostics := paths.flatMap (diagnosticsAlone c files)
        status := some
          (if paths.countP (failsAlone c files) = 0 then s!"All {paths.length} file(s) compiled."
            else s!"{paths.countP (failsAlone c files)} of {paths.length} file(s) failed.") } := by
  obtain ⟨hfailed, hstdout, hdiagnostics⟩ := foldl_checkFile c files paths {}
  rw [Nat.zero_add] at hfailed
  rw [String.empty_append] at hstdout
  rw [List.nil_append] at hdiagnostics
  unfold check
  rw [hfound]
  cases paths with
  | nil => exact absurd rfl hsome
  | cons first others =>
    dsimp only
    rw [hfailed, hstdout, hdiagnostics]
    -- the number of files that passed is shown only where none has failed
    split_ifs with hnone
    · rw [hnone, Nat.sub_zero]
    · rfl

/-- **A check is the conjunction of independent compiles.** Where files are found, each that can be
read, which is one that holds a text, has its line and all have their diagnostics, in the order of
the files, as if each were checked alone with a new sink; a file that cannot be read has one
diagnostic on its path. The number of files that fail alone decides on the exit code and on the
status. -/
theorem check_alone (s : Surroundings) (limit verbosity : Nat) {path : String}
    {paths : List String} (hfound : s.files.discover path = .ok paths) (hsome : paths ≠ []) :
    let c : Compiler := { maxDepth := limit }
    let outcome := perform { task := .check path, maxDepth := limit, verbosity } s
    let failed := paths.countP (failsAlone c s.files)
    outcome.stdout = String.join (paths.map (lineAlone c s.files)) ∧
      outcome.diagnostics = paths.flatMap (diagnosticsAlone c s.files) ∧
      (∀ p content, s.files.read p = .ok content ↔
        ∃ bytes, s.files.look p = .ok (.file bytes) ∧ decodeText? bytes = some content) ∧
      (∀ p d, s.files.read p = .error d →
        ∃ reason, d = Files.invalidPath "read_file" p reason) ∧
      failed ≤ paths.length ∧
      outcome.exit = (if failed = 0 then 0 else 1) ∧
      outcome.status = some
        (if failed = 0 then s!"All {paths.length} file(s) compiled."
          else s!"{failed} of {paths.length} file(s) failed.") := by
  intro c outcome failed
  have houtcome : outcome = _ := check_eq c hfound hsome
  rw [houtcome]
  refine ⟨rfl, rfl, fun p content => Files.read_eq_ok_iff, fun p d => Files.exists_reason,
    List.countP_le_length, ?_, rfl⟩
  change exitCode (failed == 0) = _
  unfold exitCode
  cases failed <;> rfl

/-- A file that fails, one that is no text and one that compiles, checked in this order. -/
theorem check_alone_three_files :
    let tree : FileTree :=
      ⟨[("d", .directory
        [("a.dec", .file "(nope)".toUTF8), ("b.dec", .file ⟨#[0xff]⟩),
          ("c.dec", .file "(pi)".toUTF8)])]⟩
    let outcome :=
      perform { task := .check "d", maxDepth := 2, verbosity := 0 } { files := tree.toFiles }
    tree.toFiles.discover "d" = .ok ["d/a.dec", "d/b.dec", "d/c.dec"] ∧
      outcome.stdout = "✗ d/a.dec (1 error(s))\n✓ d/c.dec\n" ∧
      outcome.diagnostics.map Diagnostic.code =
        ["dec::render::unknown_command", "dec::file-system::invalid_path"] ∧
      outcome.exit = 1 ∧ outcome.status = some "2 of 3 file(s) failed." := by
  intro tree outcome
  have hsorted : Files.sourceNames [["a.dec"], ["b.dec"], ["c.dec"]] =
      [["a.dec"], ["b.dec"], ["c.dec"]] := by
    have hsources : [["a.dec"], ["b.dec"], ["c.dec"]].filter isSourceName =
        [["a.dec"], ["b.dec"], ["c.dec"]] := by decide +kernel
    rw [Files.sourceNames, hsources]
    exact List.mergeSort_of_pairwise (by decide +kernel)
  have hfound : tree.toFiles.discover "d" = .ok ["d/a.dec", "d/b.dec", "d/c.dec"] := by
    change Except.ok ((Files.sourceNames [["a.dec"], ["b.dec"], ["c.dec"]]).map (joinPath "d")) = _
    rw [hsorted]
    exact congrArg Except.ok (by decide +kernel)
  have hfailed : ["d/a.dec", "d/b.dec", "d/c.dec"].countP
      (failsAlone { maxDepth := 2 } tree.toFiles) = 2 := by decide +kernel
  obtain ⟨hstdout, hdiagnostics, -, -, -, hexit, hstatus⟩ :=
    check_alone { files := tree.toFiles } 2 0 hfound (by simp)
  rw [hfailed] at hexit hstatus
  refine ⟨hfound, hstdout.trans (by decide +kernel), ?_, hexit, hstatus⟩
  rw [hdiagnostics]
  decide +kernel

end CommandLine

end GraphTex
