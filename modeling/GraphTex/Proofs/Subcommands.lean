import GraphTex.Proofs.FileChecks
import GraphTex.Proofs.JsonTexts
import GraphTex.Proofs.Phases

/-!
# Four ways to look at one file

A file can be compiled with its output as text or as JSON, checked, and shown as trees. The four
decide in different ways whether all is well: by the output, by the list of diagnostics, by what is
left in the sink of a check, and by the reports of a parse of its own. On a regular file each of
them is said here by the compile of the file alone (`compile_text`, `compile_json`, `check_file`,
`ast_text`), and from these equations they agree (`subcommands_agree`).
-/

namespace GraphTex

/-- The fault is found before anything is rendered: in the file system, or by parsing. -/
def Diagnostic.precedesRendering (d : Diagnostic) : Bool :=
  d.fault.phase = .parse ∨ d.fault.phase = .fileSystem

/-- What a compile finds before rendering is what parsing alone reports. -/
theorem Compiler.faults_before_rendering (c : Compiler) (source : Source) :
    ((c.compile source).diagnostics.filter Diagnostic.precedesRendering).map Diagnostic.fault =
      (c.parse source.content).reports.map Report.fault := by
  have hfilter : (c.fragments source.content).reports.filter
        (Diagnostic.precedesRendering ∘ Diagnostic.ofReport source) =
      (c.fragments source.content).reports.filter (Report.hasPhase .parse) := by
    refine List.filter_congr fun r hr => ?_
    rcases c.phase_of_mem_fragments hr with hphase | hphase <;>
      simp [Diagnostic.precedesRendering, Diagnostic.ofReport, Report.hasPhase, hphase]
  rw [diagnostics_compile, List.filter_map, hfilter, filter_parse_fragments, List.map_map]
  rfl

theorem Json.orNull_map {α β : Type} (toJson : β → Json) (f : α → β) (value : Option α) :
    Json.orNull toJson (value.map f) = Json.orNull (fun a => toJson (f a)) value := by
  cases value <;> rfl

namespace CommandLine

@[simp] theorem exitCode_eq_zero_iff {success : Bool} : exitCode success = 0 ↔ success = true := by
  cases success <;> simp [exitCode]

/-- The words of a command line ask for a task under a nesting limit. -/
def Asks (words : List String) (task : Task) (limit : Nat) : Prop :=
  ∃ verbosity, Invocation.ofWords words = .ok { task, maxDepth := limit, verbosity }

/-- The verbosity has no influence on the outcome. -/
theorem run_of_asks {words : List String} {task : Task} {limit : Nat} (h : Asks words task limit)
    (s : Surroundings) :
    run words s = perform { task, maxDepth := limit, verbosity := 0 } s := by
  obtain ⟨verbosity, hwords⟩ := h
  unfold run
  rw [hwords]
  rfl

section Outcomes

variable {c : Compiler} {s : Surroundings} {path : String} {bytes : ByteArray}

/-! ### Reading -/

theorem readSource_eq (hpath : path ≠ "-") :
    readSource s path = (s.files.read path).map fun content => ⟨path, content⟩ := if_neg hpath

/-- A regular file is read as a source, or it holds no text. -/
theorem readSource_cases (hfile : s.files.look path = .ok (.file bytes)) (hpath : path ≠ "-") :
    (∃ content, decodeText? bytes = some content ∧ s.files.read path = .ok content ∧
      readSource s path = .ok ⟨path, content⟩) ∨
    ∃ reason, decodeText? bytes = none ∧
      s.files.read path = .error (Files.invalidPath "read_file" path reason) ∧
      readSource s path = .error (Files.invalidPath "read_file" path reason) := by
  rw [readSource_eq hpath]
  cases hread : s.files.read path with
  | ok content =>
    obtain ⟨found, hlook, htext⟩ := Files.read_eq_ok_iff.1 hread
    rw [hfile] at hlook
    cases hlook
    exact .inl ⟨content, htext, rfl, rfl⟩
  | error d =>
    obtain ⟨reason, rfl⟩ := Files.exists_reason hread
    refine .inr ⟨reason, ?_, rfl, rfl⟩
    cases htext : decodeText? bytes with
    | none => rfl
    | some content =>
      rw [Files.read_eq_ok_iff.2 ⟨bytes, hfile, htext⟩] at hread
      cases hread

theorem compile_unread {d : Diagnostic} (h : readSource s path = .error d) (json : Bool) :
    compile c s path json = { exit := 1, diagnostics := [d] } := by
  unfold compile
  rw [h]

theorem ast_unread {d : Diagnostic} (h : readSource s path = .error d) :
    ast c s path = { exit := 1, diagnostics := [d] } := by
  unfold ast
  rw [h]

/-! ### A file that is a text -/

variable {source : Source}

theorem compile_of_output {output : Text} (h : readSource s path = .ok source)
    (houtput : (c.compile source).output = some output) :
    compile c s path false =
      { stdout := String.ofList output, status := some "No errors found." } := by
  unfold compile
  rw [h]
  simp only [Bool.false_eq_true, if_false]
  rw [houtput]

theorem compile_of_no_output (h : readSource s path = .ok source)
    (houtput : (c.compile source).output = none) :
    compile c s path false =
      { exit := 1
        diagnostics := (c.compile source).diagnostics
        status := some s!"{(c.compile source).diagnostics.length} error(s) found." } := by
  unfold compile
  rw [h]
  simp only [Bool.false_eq_true, if_false]
  rw [houtput]

/-- The exit code, the diagnostics and the text of a compile as text are those of the compile
alone. -/
theorem compile_text (h : readSource s path = .ok source) :
    (compile c s path false).exit = exitCode (c.compile source).diagnostics.isEmpty ∧
      (compile c s path false).diagnostics = (c.compile source).diagnostics ∧
      (c.compile source).output.map String.ofList =
        if (compile c s path false).exit = 0 then some (compile c s path false).stdout
        else none := by
  cases houtput : (c.compile source).output with
  | some output =>
    rw [compile_of_output h houtput, c.diagnostics_of_output houtput]
    exact ⟨rfl, rfl, rfl⟩
  | none =>
    rw [compile_of_no_output h houtput, ← c.isSome_output, houtput]
    exact ⟨rfl, rfl, rfl⟩

theorem compile_json (h : readSource s path = .ok source) :
    compile c s path true =
      { exit := exitCode (c.compile source).diagnostics.isEmpty
        stdout := printedJson (compilationJson (c.compile source)) } := by
  unfold compile
  rw [h]
  rfl

theorem ast_text (h : readSource s path = .ok source) :
    (ast c s path).exit = exitCode (c.parse source.content).reports.isEmpty ∧
      (ast c s path).diagnostics =
        (c.parse source.content).reports.map (Diagnostic.ofReport ⟨"input", source.content⟩) := by
  have hdiagnostics :
      ((Sink.about ⟨"input", source.content⟩).record (c.parse source.content).reports).diagnostics =
        (c.parse source.content).reports.map (Diagnostic.ofReport ⟨"input", source.content⟩) := by
    rw [Sink.diagnostics_record]
    rfl
  unfold ast
  rw [h]
  dsimp only
  rw [Sink.isValid, hdiagnostics, List.isEmpty_map]
  exact ⟨rfl, rfl⟩

theorem check_file (hfile : s.files.look path = .ok (.file bytes)) :
    (check c s.files path).exit = exitCode (!failsAlone c s.files path) ∧
      (check c s.files path).diagnostics = diagnosticsAlone c s.files path := by
  have hfound : s.files.discover path = .ok [path] := by
    unfold Files.discover
    rw [hfile]
  rw [check_eq c hfound (List.cons_ne_nil path [])]
  refine ⟨?_, List.append_nil _⟩
  cases hfails : failsAlone c s.files path <;> simp [hfails]

/-! ### Agreement -/

/-- The exit code does not depend on the form of the output. -/
theorem exit_compile_json : (compile c s path true).exit = (compile c s path false).exit := by
  cases hread : readSource s path with
  | error d => rw [compile_unread hread, compile_unread hread]
  | ok source => rw [compile_json hread, (compile_text hread).1]

/-- A compile succeeds exactly if it shows no diagnostics. -/
theorem exit_compile_iff :
    (compile c s path false).exit = 0 ↔ (compile c s path false).diagnostics = [] := by
  cases hread : readSource s path with
  | error d => simp [compile_unread hread]
  | ok source =>
    obtain ⟨hexit, hdiagnostics, -⟩ := compile_text (c := c) hread
    rw [hexit, hdiagnostics, exitCode_eq_zero_iff, List.isEmpty_iff]

/-- What is printed for a value is read as this value. -/
theorem read?_printedJson (j : Json) : Json.read? (printedJson j) = some j :=
  Json.read?_pretty j (by simp [Json.isSpacing])

/-- The JSON has the text of the output, or null where there is none, and the codes of the
diagnostics. -/
theorem read?_compile_json (h : readSource s path = .ok source) :
    ∃ rows : List (List (String × Json)),
      Json.read? (compile c s path true).stdout =
        some (.obj
          [ ("output",
              if (compile c s path false).exit = 0 then .str (compile c s path false).stdout
              else .null),
            ("diagnostics", .arr (rows.map .obj)) ]) ∧
      rows.map (Json.field? "code") =
        (compile c s path false).diagnostics.map fun d => some (.str d.code) := by
  obtain ⟨-, hdiagnostics, houtput⟩ := compile_text (c := c) h
  refine ⟨(c.compile source).diagnostics.map fun d =>
    [("category", .str d.fault.category.name), ("code", .str d.code), ("message", .str d.message),
      ("span", d.span.toJson)], ?_, ?_⟩
  · have hfield :
        Json.orNull (fun output => .str (String.ofList output)) (c.compile source).output =
        if (compile c s path false).exit = 0 then .str (compile c s path false).stdout
        else .null := by
      rw [← Json.orNull_map, houtput]
      split_ifs <;> rfl
    rw [compile_json h, read?_printedJson, compilationJson, hfield, List.map_map]
    rfl
  · rw [hdiagnostics, List.map_map]
    rfl

/-- A check of a file ends as a compile of it, with the same diagnostics. -/
theorem check_agrees (hfile : s.files.look path = .ok (.file bytes)) (hpath : path ≠ "-") :
    (check c s.files path).exit = (compile c s path false).exit ∧
      (check c s.files path).diagnostics = (compile c s path false).diagnostics := by
  obtain ⟨hexit, hdiagnostics⟩ := check_file (c := c) hfile
  rw [hexit, hdiagnostics, failsAlone, diagnosticsAlone]
  rcases readSource_cases hfile hpath with
    ⟨content, -, hread, hsource⟩ | ⟨reason, -, hread, hsource⟩
  · obtain ⟨hexit, hdiagnostics, -⟩ := compile_text (c := c) hsource
    rw [hread, hexit, hdiagnostics, ← c.isSome_output, ← Option.not_isNone]
    exact ⟨rfl, rfl⟩
  · rw [hread, compile_unread hsource]
    exact ⟨rfl, rfl⟩

/-- Showing the trees of a file finds what a compile finds before rendering. -/
theorem ast_agrees (hfile : s.files.look path = .ok (.file bytes)) (hpath : path ≠ "-") :
    (ast c s path).diagnostics.map Diagnostic.fault =
        ((compile c s path false).diagnostics.filter Diagnostic.precedesRendering).map
          Diagnostic.fault ∧
      ((ast c s path).exit = 0 ↔ (ast c s path).diagnostics = []) := by
  rcases readSource_cases hfile hpath with ⟨content, -, -, hsource⟩ | ⟨reason, -, -, hsource⟩
  · obtain ⟨hexit, hdiagnostics⟩ := ast_text (c := c) hsource
    rw [hexit, hdiagnostics, (compile_text hsource).2.1, c.faults_before_rendering, List.map_map,
      List.map_eq_nil_iff, exitCode_eq_zero_iff, List.isEmpty_iff]
    exact ⟨rfl, Iff.rfl⟩
  · rw [ast_unread hsource, compile_unread hsource]
    exact ⟨rfl, by simp⟩

end Outcomes

/-- **The subcommands agree on a file.** Take any command lines that ask for the same regular file,
under the same limit, in the four ways. Then

* a compile has one exit code, whatever the form of its output, and if the file is a text, what is
  printed as JSON is read as an object with the text that is printed otherwise, or null where the
  compile fails, and with the same codes;
* a check ends as a compile does and shows the same diagnostics;
* showing the trees shows the codes of those diagnostics that are found in the file system or by
  parsing, and all is well exactly if there are none, so in particular if the compile succeeds. -/
theorem subcommands_agree (s : Surroundings) {path : String} {bytes : ByteArray} {limit : Nat}
    (hfile : s.files.look path = .ok (.file bytes)) (hpath : path ≠ "-")
    {text json check trees : List String} (htext : Asks text (.compile path false) limit)
    (hjson : Asks json (.compile path true) limit) (hcheck : Asks check (.check path) limit)
    (htrees : Asks trees (.ast path) limit) :
    (run json s).exit = (run text s).exit ∧
      ((decodeText? bytes).isSome = true → ∃ rows : List (List (String × Json)),
        Json.read? (run json s).stdout =
          some (.obj
            [ ("output", if (run text s).exit = 0 then .str (run text s).stdout else .null),
              ("diagnostics", .arr (rows.map .obj)) ]) ∧
        rows.map (Json.field? "code") =
          (run text s).diagnostics.map fun d => some (.str d.code)) ∧
      ((run check s).exit = 0 ↔ (run text s).exit = 0) ∧
      (run check s).diagnostics.map Diagnostic.code =
        (run text s).diagnostics.map Diagnostic.code ∧
      ((run trees s).exit = 0 ↔
        ∀ d ∈ (run text s).diagnostics, d.fault.phase ≠ .parse ∧ d.fault.phase ≠ .fileSystem) ∧
      (run trees s).diagnostics.map Diagnostic.code =
        ((run text s).diagnostics.filter fun d =>
          d.fault.phase = .parse ∨ d.fault.phase = .fileSystem).map Diagnostic.code ∧
      ((run text s).exit = 0 → (run trees s).exit = 0) := by
  let c : Compiler := { maxDepth := limit }
  have hruns : run text s = compile c s path false ∧ run json s = compile c s path true ∧
      run check s = CommandLine.check c s.files path ∧ run trees s = ast c s path :=
    ⟨run_of_asks htext s, run_of_asks hjson s, run_of_asks hcheck s, run_of_asks htrees s⟩
  obtain ⟨hruntext, hrunjson, hruncheck, hruntrees⟩ := hruns
  rw [hruntext, hrunjson, hruncheck, hruntrees]
  obtain ⟨hcheckexit, hcheckdiagnostics⟩ := check_agrees (c := c) hfile hpath
  obtain ⟨hfaults, htreesexit⟩ := ast_agrees (c := c) hfile hpath
  have hearly : (ast c s path).exit = 0 ↔ ∀ d ∈ (compile c s path false).diagnostics,
      d.fault.phase ≠ .parse ∧ d.fault.phase ≠ .fileSystem := by
    rw [htreesexit, ← List.map_eq_nil_iff (f := Diagnostic.fault), hfaults, List.map_eq_nil_iff,
      List.filter_eq_nil_iff]
    simp [Diagnostic.precedesRendering]
  refine ⟨exit_compile_json, fun hdecodes => ?_, by rw [hcheckexit], by rw [hcheckdiagnostics],
    hearly, ?_, fun hsuccess => ?_⟩
  · rcases readSource_cases hfile hpath with ⟨content, -, -, hsource⟩ | ⟨reason, hnone, -, -⟩
    · exact read?_compile_json hsource
    · rw [hnone] at hdecodes
      cases hdecodes
  · -- the code is a function of the fault
    have hcodes := congrArg (List.map Fault.code) hfaults
    rw [List.map_map, List.map_map] at hcodes
    exact hcodes
  · rw [hearly, exit_compile_iff.1 hsuccess]
    exact fun d hd => absurd hd List.not_mem_nil

/-- A file with a name that looks like an option and with a fault of each phase in it, and a file
that has an output. -/
theorem subcommands_agree_on_two_files :
    let s : Surroundings :=
      { files := (⟨[("-x", .file "(nope ())".toUTF8), ("é", .file "(pi)\n(tau)".toUTF8)]⟩ :
          FileTree).toFiles }
    ((run ["compile", "--max-depth", "2", "--", "-x"] s).exit = 1 ∧
        (run ["--max-depth=2", "compile", "--json", "--", "-x"] s).exit = 1 ∧
        (∃ rows : List (List (String × Json)),
          Json.read? (run ["--max-depth=2", "compile", "--json", "--", "-x"] s).stdout =
            some (.obj [("output", .null), ("diagnostics", .arr (rows.map .obj))]) ∧
          rows.map (Json.field? "code") =
            ["dec::parse::command_expected", "dec::render::unknown_command"].map (some <| .str ·)) ∧
        (run ["-v", "check", "--max-depth", "2", "--", "-x"] s).diagnostics.map Diagnostic.code =
          ["dec::parse::command_expected", "dec::render::unknown_command"] ∧
        (run ["--max-depth", "2", "ast", "--", "-x"] s).diagnostics.map Diagnostic.code =
          ["dec::parse::command_expected"]) ∧
      (run ["compile", "é"] s).stdout = "\\pi\n\\tau\n" ∧
        Json.read? (run ["compile", "é", "--json"] s).stdout =
          some (.obj [("output", .str "\\pi\n\\tau\n"), ("diagnostics", .arr [])]) ∧
        (run ["check", "é"] s).exit = 0 ∧ (run ["ast", "é"] s).exit = 0 := by
  intro s
  constructor
  · have hfile : s.files.look "-x" = .ok (.file "(nope ())".toUTF8) := rfl
    have htext : Asks ["compile", "--max-depth", "2", "--", "-x"] (.compile "-x" false) 2 :=
      ⟨0, by decide +kernel⟩
    have hjson : Asks ["--max-depth=2", "compile", "--json", "--", "-x"] (.compile "-x" true) 2 :=
      ⟨0, by decide +kernel⟩
    have hcheck : Asks ["-v", "check", "--max-depth", "2", "--", "-x"] (.check "-x") 2 :=
      ⟨1, by decide +kernel⟩
    have htrees : Asks ["--max-depth", "2", "ast", "--", "-x"] (.ast "-x") 2 :=
      ⟨0, by decide +kernel⟩
    have hfails : (run ["compile", "--max-depth", "2", "--", "-x"] s).exit = 1 := by decide +kernel
    have hfound : (run ["compile", "--max-depth", "2", "--", "-x"] s).diagnostics.map
        Diagnostic.code = ["dec::parse::command_expected", "dec::render::unknown_command"] := by
      decide +kernel
    obtain ⟨hexit, hrows, -, hcodes, -, hearly, -⟩ :=
      subcommands_agree s hfile (by decide) htext hjson hcheck htrees
    obtain ⟨rows, hread, hrows⟩ := hrows (by decide +kernel)
    rw [hfails] at hread
    refine ⟨hfails, hexit.trans hfails, ⟨rows, hread, ?_⟩, hcodes.trans hfound,
      hearly.trans (by decide +kernel)⟩
    rw [hrows, ← hfound, List.map_map]
    rfl
  · have hfile : s.files.look "é" = .ok (.file "(pi)\n(tau)".toUTF8) := rfl
    have htext : Asks ["compile", "é"] (.compile "é" false) 256 := ⟨0, by decide +kernel⟩
    have hjson : Asks ["compile", "é", "--json"] (.compile "é" true) 256 := ⟨0, by decide +kernel⟩
    have hcheck : Asks ["check", "é"] (.check "é") 256 := ⟨0, by decide +kernel⟩
    have htrees : Asks ["ast", "é"] (.ast "é") 256 := ⟨0, by decide +kernel⟩
    have houtcome : run ["compile", "é"] s =
        { stdout := "\\pi\n\\tau\n", status := some "No errors found." } := by
      decide +kernel
    obtain ⟨-, hrows, hpasses, -, -, -, htreespass⟩ :=
      subcommands_agree s hfile (by decide) htext hjson hcheck htrees
    obtain ⟨rows, hread, hrows⟩ := hrows (by decide +kernel)
    rw [houtcome] at hread hrows hpasses htreespass
    rw [List.map_eq_nil_iff.1 hrows] at hread
    exact ⟨congrArg Outcome.stdout houtcome, hread, hpasses.2 rfl, htreespass rfl⟩

end CommandLine

end GraphTex
