import GraphTex.Compiler
import Mathlib.Data.List.Basic
import Mathlib.Tactic.SplitIfs

/-!
# Compiling, group by group

Parsing and compiling a source do their work on the groups of the source one after the other. What
they give and what they report is said here through the groups, for all later proofs.
-/

namespace GraphTex.Compiler

variable (c : Compiler) (source : Text)

theorem value_parse :
    (c.parse source).value =
      (Group.find source).value.filterMap fun g => (c.readGroup g).value := by
  simp [parse, List.filterMap_map]

/-- What is collected from the trees of a source is collected group by group. -/
theorem flatMap_parse {α : Type} (f : Node → List α) :
    (c.parse source).value.flatMap f =
      (Group.find source).value.flatMap fun g => (c.readGroup g).value.elim [] f := by
  rw [value_parse, List.filterMap_eq_flatMap_toList, List.flatMap_assoc]
  refine List.flatMap_congr fun g _ => ?_
  cases (c.readGroup g).value with
  | none => rfl
  | some n => exact List.flatMap_singleton _ _

theorem reports_parse :
    (c.parse source).reports =
      (Group.find source).reports ++
        (Group.find source).value.flatMap fun g => (c.readGroup g).reports := by
  simp [parse]

theorem value_compileGroup (g : Group) :
    (c.compileGroup g).value =
      (c.readGroup g).value.map fun node => ⟨node, (c.registry.render node).value⟩ := by
  rw [compileGroup, Logged.value_bind]
  cases (c.readGroup g).value <;> rfl

theorem reports_compileGroup (g : Group) :
    (c.compileGroup g).reports =
      (c.readGroup g).reports ++
        (c.readGroup g).value.elim [] fun node => (c.registry.render node).reports := by
  rw [compileGroup, Logged.reports_bind]
  cases (c.readGroup g).value <;> simp

theorem value_fragments :
    (c.fragments source).value =
      (Group.find source).value.map fun g => (c.compileGroup g).value := by
  simp [fragments]

/-- What is reported on the groups of a source, in the order of the groups. -/
def groupReports : List Report :=
  (Group.find source).value.flatMap fun g => (c.compileGroup g).reports

theorem reports_fragments :
    (c.fragments source).reports = (Group.find source).reports ++ c.groupReports source := by
  simp [fragments, groupReports]

/-- The lines are those of the trees, whatever is reported. -/
theorem lines_fragments :
    lines (c.fragments source).value =
      (c.parse source).value.flatMap fun n => (c.registry.render n).value ++ ['\n'] := by
  rw [value_fragments, flatMap_parse, lines, List.flatMap_map]
  refine List.flatMap_congr fun g _ => ?_
  rw [value_compileGroup]
  cases (c.readGroup g).value <;> rfl

/-- If parsing reports nothing, all reports are on the rendering of the trees. -/
theorem reports_fragments_of_parse (h : (c.parse source).reports = []) :
    (c.fragments source).reports =
      (c.parse source).value.flatMap fun n => (c.registry.render n).reports := by
  rw [reports_parse, List.append_eq_nil_iff, List.flatMap_eq_nil_iff] at h
  obtain ⟨hfind, hread⟩ := h
  rw [reports_fragments, groupReports, flatMap_parse, hfind, List.nil_append]
  refine List.flatMap_congr fun g hg => ?_
  rw [reports_compileGroup, hread g hg, List.nil_append]

theorem compileInto_sink (sink : Sink) (source : Source) :
    (c.compileInto sink source).2 =
      (sink.reset source).record (c.fragments source.content).reports := rfl

theorem diagnostics_compileInto (sink : Sink) (source : Source) :
    (c.compileInto sink source).2.diagnostics =
      (c.fragments source.content).reports.map (Diagnostic.ofReport source) := by
  rw [compileInto_sink, Sink.diagnostics_record]
  rfl

theorem output_compileInto (sink : Sink) (source : Source) :
    (c.compileInto sink source).1 =
      if (c.fragments source.content).reports = [] then
        some (lines (c.fragments source.content).value)
      else none := by
  have hvalid : (c.compileInto sink source).2.isValid = true ↔
      (c.fragments source.content).reports = [] := by
    rw [Sink.isValid, List.isEmpty_iff, diagnostics_compileInto, List.map_eq_nil_iff]
  exact ite_congr (propext hvalid) (fun _ => rfl) fun _ => rfl

/-- A sink that has been used before makes no difference to the output of a compile. -/
theorem compileInto_output (sink : Sink) (source : Source) :
    (c.compileInto sink source).1 = (c.compile source).output :=
  (c.output_compileInto sink source).trans (c.output_compileInto {} source).symm

/-- Nor does it make a difference to the diagnostics that are left in it. -/
theorem compileInto_diagnostics (sink : Sink) (source : Source) :
    (c.compileInto sink source).2.diagnostics = (c.compile source).diagnostics :=
  (c.diagnostics_compileInto sink source).trans (c.diagnostics_compileInto {} source).symm

theorem output_compile (source : Source) :
    (c.compile source).output =
      if (c.fragments source.content).reports = [] then
        some (lines (c.fragments source.content).value)
      else none :=
  c.output_compileInto {} source

/-- An output is made of the trees, each rendered on a line of its own. -/
theorem eq_of_output {source : Source} {output : Text}
    (h : (c.compile source).output = some output) :
    output = ((c.parse source.content).value.map fun n => (c.registry.render n).value).flatMap
      fun fragment => fragment ++ ['\n'] := by
  rw [output_compile] at h
  split_ifs at h
  rw [← Option.some.inj h, lines_fragments, List.flatMap_map]

/-- A fragment is a tree of the source and what it is rendered to. -/
theorem mem_fragments {f : Fragment} (h : some f ∈ (c.fragments source).value) :
    f.node ∈ (c.parse source).value ∧ f.latex = (c.registry.render f.node).value := by
  rw [value_fragments, List.mem_map] at h
  obtain ⟨g, hg, hvalue⟩ := h
  rw [value_compileGroup, Option.map_eq_some_iff] at hvalue
  obtain ⟨node, hnode, rfl⟩ := hvalue
  rw [value_parse]
  exact ⟨List.mem_filterMap.2 ⟨g, hg, hnode⟩, rfl⟩

theorem diagnostics_compile (source : Source) :
    (c.compile source).diagnostics =
      (c.fragments source.content).reports.map (Diagnostic.ofReport source) :=
  c.diagnostics_compileInto {} source

/-- The faults of the diagnostics are those of the reports, in their order. -/
theorem faults_compile (source : Source) :
    (c.compile source).diagnostics.map Diagnostic.fault =
      (c.fragments source.content).reports.map Report.fault := by
  rw [diagnostics_compile, List.map_map]
  rfl

/-- There is no output exactly if there is a diagnostic. -/
theorem output_eq_none_iff (source : Source) :
    (c.compile source).output = none ↔ (c.compile source).diagnostics ≠ [] := by
  rw [output_compile, diagnostics_compile, Ne, List.map_eq_nil_iff]
  split_ifs with h <;> simp [h]

/-- To look at the output and to look at the diagnostics is the same. -/
theorem isSome_output (source : Source) :
    (c.compile source).output.isSome = (c.compile source).diagnostics.isEmpty := by
  rw [output_compile, diagnostics_compile, List.isEmpty_map]
  split_ifs with h <;> simp [h]

theorem diagnostics_of_output {source : Source} {output : Text}
    (h : (c.compile source).output = some output) : (c.compile source).diagnostics = [] := by
  rw [← List.isEmpty_iff, ← isSome_output, h]
  rfl

/-- There is an output exactly if neither parsing nor rendering a tree reports anything. -/
theorem isSome_output_iff (source : Source) :
    (c.compile source).output.isSome = true ↔
      (c.parse source.content).reports = [] ∧
        ∀ n ∈ (c.parse source.content).value, (c.registry.render n).reports = [] := by
  have houtput : (c.compile source).output.isSome = true ↔
      (c.fragments source.content).reports = [] := by
    rw [output_compile]
    split_ifs with h <;> simp [h]
  rw [houtput, reports_fragments, groupReports, reports_parse, value_parse, List.append_eq_nil_iff,
    List.append_eq_nil_iff, and_assoc]
  refine and_congr Iff.rfl ?_
  simp only [List.flatMap_eq_nil_iff, reports_compileGroup, List.append_eq_nil_iff]
  constructor
  · intro h
    refine ⟨fun g hg => (h g hg).1, fun n hn => ?_⟩
    obtain ⟨g, hg, hvalue⟩ := List.mem_filterMap.1 hn
    have hrender := (h g hg).2
    rwa [hvalue] at hrender
  · rintro ⟨hread, hrender⟩ g hg
    refine ⟨hread g hg, ?_⟩
    cases hvalue : (c.readGroup g).value with
    | none => rfl
    | some n => exact hrender n (List.mem_filterMap.2 ⟨g, hg, hvalue⟩)

end GraphTex.Compiler
