import GraphTex.Proofs.Concatenation
import GraphTex.Proofs.Pointing

/-!
# Parsing alone and parsing inside a compile

Compiling reads and renders one group after the other, so reports of both phases alternate in its
diagnostics. Parsing reads the same groups and renders nothing. Reading makes reports of the parsing
phase only (`Node.phase_of_mem_read`), rendering none of them (`Registry.phase_of_mem_render`), and
what is rendered has no influence on what is read behind it. So the reports of the parsing phase
among those of a compile are exactly the reports of parsing alone, in the same order
(`parse_reports_of_compile`).
-/

namespace GraphTex

/-! ### The phase of reading -/

theorem Group.phase_of_mem_find {source : Text} {r : Report} (h : r ∈ (Group.find source).reports) :
    r.fault.phase = .parse := by
  obtain ⟨o, rfl⟩ := Group.eq_mismatch_of_mem_find h
  rfl

theorem Token.phase_of_mem_split {offset : Nat} {text : Text} {r : Report}
    (h : r ∈ (Token.split offset text).reports) : r.fault.phase = .parse := by
  rw [Token.fault_of_mem_split h]
  rfl

/-- **Reading makes reports of its own phase only**, at every depth. -/
theorem Node.phase_of_mem_read {limit levels offset : Nat} {text : Text} {r : Report}
    (h : r ∈ (Node.read limit levels offset text).reports) : r.fault.phase = .parse := by
  induction levels generalizing offset text with
  | zero =>
    rw [Node.read_zero] at h
    rw [List.mem_singleton.1 h]
    rfl
  | succ levels ih =>
    cases htokens : (Token.split offset text).value with
    | nil =>
      rw [Node.read_empty htokens] at h
      rcases List.mem_append.1 h with hsplit | hempty
      · exact Token.phase_of_mem_split hsplit
      · rw [List.mem_singleton.1 hempty]
        rfl
    | cons head rest =>
      cases hopen : head.isParenthesized with
      | true =>
        rw [Node.read_enclosed htokens hopen] at h
        rcases List.mem_append.1 h with hsplit | hhead
        · exact Token.phase_of_mem_split hsplit
        · rw [List.mem_singleton.1 hhead]
          rfl
      | false =>
        rw [Node.read_command htokens hopen] at h
        rcases List.mem_append.1 h with hsplit | harg
        · exact Token.phase_of_mem_split hsplit
        · obtain ⟨t, -, hr⟩ := List.mem_flatMap.1 harg
          rcases t.shape with hliteral | ⟨hparen, hcontent⟩ | ⟨content, htext⟩
          · rw [Argument.read_literal hliteral] at hr
            exact absurd hr List.not_mem_nil
          · rw [Argument.read_unclosed hparen hcontent] at hr
            rw [List.mem_singleton.1 hr]
            rfl
          · rw [Argument.read_expr htext] at hr
            exact ih hr

/-! ### The reports of a phase -/

/-- The report is of the given phase. -/
def Report.hasPhase (phase : Phase) (r : Report) : Bool := r.fault.phase = phase

/-- Of reports that are all of one phase, all or none are of a given phase. -/
theorem Report.filter_hasPhase {reports : List Report} {own : Phase}
    (h : ∀ r ∈ reports, r.fault.phase = own) (phase : Phase) :
    reports.filter (hasPhase phase) = if own = phase then reports else [] := by
  split_ifs with hown
  · exact List.filter_eq_self.2 fun r hr => decide_eq_true ((h r hr).trans hown)
  · exact List.filter_eq_nil_iff.2 fun r hr => by simp [hasPhase, h r hr, hown]

namespace Compiler

variable (c : Compiler)

theorem phase_of_mem_readGroup {g : Group} {r : Report} (h : r ∈ (c.readGroup g).reports) :
    r.fault.phase = .parse :=
  Node.phase_of_mem_read h

/-- Of a group, what reading reports is of the parsing phase, and what rendering reports is not. -/
theorem filter_compileGroup (g : Group) (phase : Phase) :
    (c.compileGroup g).reports.filter (Report.hasPhase phase) =
      (if .parse = phase then (c.readGroup g).reports else []) ++
        if .render = phase then (c.readGroup g).value.elim [] fun n => (c.registry.render n).reports
        else [] := by
  rw [reports_compileGroup, List.filter_append,
    Report.filter_hasPhase fun r => c.phase_of_mem_readGroup]
  congr 1
  cases (c.readGroup g).value with
  | none => exact (ite_self _).symm
  | some n => exact Report.filter_hasPhase (fun r => Registry.phase_of_mem_render) phase

/-- **Of a source, exactly what parsing reports is of the parsing phase.** -/
theorem filter_parse_fragments (source : Text) :
    (c.fragments source).reports.filter (Report.hasPhase .parse) = (c.parse source).reports := by
  rw [reports_fragments, reports_parse, groupReports, List.filter_append, List.filter_flatMap,
    Report.filter_hasPhase fun r => Group.phase_of_mem_find]
  -- both runs visit the same groups, and they agree on each of them
  refine congrArg _ (List.flatMap_congr fun g _ => ?_)
  rw [filter_compileGroup]
  exact List.append_nil _

/-- **Of a source, exactly what rendering its trees reports is of the rendering phase.** -/
theorem filter_render_fragments (source : Text) :
    (c.fragments source).reports.filter (Report.hasPhase .render) =
      (c.parse source).value.flatMap fun n => (c.registry.render n).reports := by
  rw [reports_fragments, flatMap_parse, groupReports, List.filter_append, List.filter_flatMap,
    Report.filter_hasPhase fun r => Group.phase_of_mem_find]
  exact List.flatMap_congr fun g _ => c.filter_compileGroup g .render

theorem phase_of_mem_fragments {source : Text} {r : Report}
    (h : r ∈ (c.fragments source).reports) : r.fault.phase = .parse ∨ r.fault.phase = .render := by
  rw [reports_fragments, List.mem_append] at h
  rcases h with hfind | hgroups
  · exact .inl (Group.phase_of_mem_find hfind)
  · obtain ⟨g, -, hr⟩ := List.mem_flatMap.1 hgroups
    rw [reports_compileGroup, List.mem_append] at hr
    rcases hr with hread | hrender
    · exact .inl (c.phase_of_mem_readGroup hread)
    · cases hvalue : (c.readGroup g).value with
      | none =>
        rw [hvalue] at hrender
        exact absurd hrender List.not_mem_nil
      | some node =>
        rw [hvalue] at hrender
        exact .inr (Registry.phase_of_mem_render hrender)

/-- The spans of the diagnostics are those of the reports: none of them stops before it starts. -/
theorem reports_compile_eq (source : Source) :
    (c.compile source).reports = (c.fragments source.content).reports := by
  rw [Compilation.reports, diagnostics_compile, List.map_map]
  refine (List.map_congr_left fun r hr => ?_).trans (List.map_id _)
  obtain ⟨piece, hslice⟩ := (points_of_mem_fragments hr).exists_slice
  change (⟨r.fault, r.span.normalize⟩ : Report) = r
  rw [Span.normalize_of_le (Text.start_le_stop_of_slice? hslice)]

/-- **Parsing alone and compiling agree on syntax.** Whatever the commands and the nesting limit,
the faults of the parsing phase among the diagnostics of a compile are those that parsing alone
reports, at the same spans and in the same order, and all other diagnostics are of the rendering
phase. So a source that has an output is parsed without report. -/
theorem parse_reports_of_compile (source : Source) :
    (c.compile source).reports.filter (fun r => r.fault.phase = .parse) =
        (c.parse source.content).reports ∧
      (∀ r ∈ (c.compile source).reports, r.fault.phase ≠ .parse → r.fault.phase = .render) ∧
      ((c.compile source).output.isSome = true → (c.parse source.content).reports = []) := by
  rw [reports_compile_eq]
  refine ⟨c.filter_parse_fragments source.content, fun r hr hphase => ?_, fun houtput => ?_⟩
  · exact (c.phase_of_mem_fragments hr).resolve_left hphase
  · exact ((c.isSome_output_iff source).1 houtput).1

/-- Two groups with faults of both phases, which alternate when they are compiled, and a source
with an output. -/
theorem parse_reports_of_compile_alternating :
    (compile { maxDepth := 2 } ⟨"input", "é(frac (nope) ())(let 1x (tau (b)))".toList⟩).reports =
      [⟨.commandExpected none, ⟨16, 16⟩⟩, ⟨.unknownCommand "nope".toList, ⟨9, 13⟩⟩,
        ⟨.nestingTooDeep 2, ⟨32, 33⟩⟩, ⟨.malformedIdentifier "1x".toList, ⟨23, 25⟩⟩] ∧
    (parse { maxDepth := 2 } "é(frac (nope) ())(let 1x (tau (b)))".toList).reports =
      [⟨.commandExpected none, ⟨16, 16⟩⟩, ⟨.nestingTooDeep 2, ⟨32, 33⟩⟩] ∧
    (Fault.unknownCommand "nope".toList).phase = .render ∧
    (parse { maxDepth := 2 } "(sqrt (pi))".toList).reports = [] := by
  have hreports :
      (compile { maxDepth := 2 }
          ⟨"input", "é(frac (nope) ())(let 1x (tau (b)))".toList⟩).reports =
        [⟨.commandExpected none, ⟨16, 16⟩⟩, ⟨.unknownCommand "nope".toList, ⟨9, 13⟩⟩,
          ⟨.nestingTooDeep 2, ⟨32, 33⟩⟩, ⟨.malformedIdentifier "1x".toList, ⟨23, 25⟩⟩] := by
    decide +kernel
  obtain ⟨hparse, hother, -⟩ :=
    parse_reports_of_compile { maxDepth := 2 }
      ⟨"input", "é(frac (nope) ())(let 1x (tau (b)))".toList⟩
  obtain ⟨-, -, hsuccess⟩ :=
    parse_reports_of_compile { maxDepth := 2 } ⟨"input", "(sqrt (pi))".toList⟩
  rw [hreports] at hparse hother
  refine ⟨hreports, hparse.symm.trans (by decide), ?_, hsuccess (by decide +kernel)⟩
  exact hother ⟨.unknownCommand "nope".toList, ⟨9, 13⟩⟩ (by simp) (by decide)

end Compiler

end GraphTex
