import GraphTex.Proofs.Groups
import GraphTex.Proofs.Relocation
import Mathlib.Data.Option.NAry

/-!
# One source behind another

If no parenthesis is left open at the end of a source, a second source can be put behind it: the
scans find themselves at depth zero there and go on as at the start of a text. So the groups, the
reports and the output of both sources together are those of the first and, moved by the length of
the first, those of the second (`compile_append`).
-/

namespace GraphTex

open Paren

namespace Paren

theorem unclosed?_append {s : Text} {d : Nat} (h : s.foldl depthAfter d = 0) (o offset : Nat)
    (t : Text) : unclosed? d o offset (s ++ t) = unclosed? 0 0 (offset + s.bytes) t := by
  induction s generalizing d o offset with
  | nil =>
    obtain rfl : d = 0 := h
    exact unclosed?_zero t o 0 offset
  | cons c s ih =>
    rw [List.cons_append, unclosed?, ih h, Text.bytes_cons, Nat.add_assoc]

end Paren

namespace Group

/-- Both scans reach the end of a text at depth zero outside all groups. In front of it, the one
that starts inside a group has found the end of the group. -/
theorem outside_inside_append (s t : Text) :
    (∀ offset, s.foldl depthAfter 0 = 0 →
      outside offset (s ++ t) = outside offset s ++ outside (offset + s.bytes) t) ∧
    ∀ d offset, s.foldl depthAfter (d + 1) = 0 → ∃ content later,
      inside d offset s = some (content, later) ∧
        inside d offset (s ++ t) = some (content, later ++ outside (offset + s.bytes) t) := by
  induction s with
  | nil => exact ⟨fun offset _ => by simp [outside], fun d offset h => absurd h (by simp)⟩
  | cons c s ih =>
    obtain ⟨ihout, ihin⟩ := ih
    constructor
    · intro offset h
      rw [List.foldl_cons] at h
      rw [List.cons_append, outside, outside, Text.bytes_cons, ← Nat.add_assoc]
      split_ifs with hopen
      · subst hopen
        -- The group that opens here is closed in `s`, or the depth behind `s` would not be zero.
        obtain ⟨content, later, hs, hst⟩ := ihin 0 (offset + 1) h
        rw [hs, hst, utf8Size_open]
        rfl
      · have hdepth : depthAfter 0 c = 0 := by
          by_cases hclose : c = ')'
          · rw [hclose, depthAfter_close]
          · exact depthAfter_plain hopen hclose 0
        rw [hdepth] at h
        exact ihout (offset + c.utf8Size) h
    · intro d offset h
      rw [List.foldl_cons] at h
      rw [List.cons_append, inside, inside, Text.bytes_cons, ← Nat.add_assoc]
      split_ifs with hstray
      · obtain ⟨rfl, rfl⟩ := hstray
        rw [utf8Size_close, ihout (offset + 1) h]
        exact ⟨[], outside (offset + 1) s, rfl, rfl⟩
      · -- The depth in `h` counts the group itself, the depth of the scan does not.
        rw [depthAfter_add hstray] at h
        obtain ⟨content, later, hs, hst⟩ := ihin (depthAfter d c) (offset + c.utf8Size) h
        rw [hs, hst]
        exact ⟨c :: content, later, rfl, rfl⟩

/-- **Groups of one source behind another.** -/
theorem find_append {s : Text} (h : depth s = 0) (t : Text) :
    find (s ++ t) =
      ⟨(find s).value ++ (find t).value.map (Group.shift s.bytes),
        (find s).reports ++ (find t).reports.map (Report.shift s.bytes)⟩ := by
  have houtside := (outside_inside_append s t).1 0 h
  have hclosed : unclosed? 0 0 0 s = none := (unclosed?_eq_none_iff s 0 0 0).2 h
  have hunclosed := unclosed?_append h 0 0 t
  have hstrays := strays_append 0 0 s t
  have hmoved : unclosed? 0 0 (0 + s.bytes) t = (unclosed? 0 0 0 t).map (· + s.bytes) := by
    rw [unclosed?_zero t 0 (0 + s.bytes), unclosed?_shift]
  rw [outside_shift] at houtside
  rw [show s.foldl depthAfter 0 = 0 from h, strays_shift] at hstrays
  rw [hmoved] at hunclosed
  simp only [find, houtside, hstrays, hunclosed, hclosed, List.map_append, List.append_assoc,
    Option.map_none, Option.toList_none, List.nil_append]
  cases unclosed? 0 0 0 t with
  | none => rfl
  | some o => simp [mismatch_shift]

/-- Reports on the parentheses of a source are on single bytes. -/
theorem normalize_of_mem_find {source : Text} {r : Report} (h : r ∈ (find source).reports) :
    r.span.normalize = r.span := by
  obtain ⟨o, rfl⟩ := eq_mismatch_of_mem_find h
  exact Span.normalize_of_le (Nat.le_succ o)

end Group

/-- The faults and spans of the diagnostics, in their order. -/
def Compilation.reports (r : Compilation) : List Report :=
  r.diagnostics.map fun d => ⟨d.fault, d.span⟩

namespace Compiler

variable (c : Compiler)

theorem reports_compile (source : Source) :
    (c.compile source).reports =
      (Group.find source.content).reports ++
        (c.groupReports source.content).map (Report.mapSpan Span.normalize) := by
  have hfind : (Group.find source.content).reports.map (Report.mapSpan Span.normalize) =
      (Group.find source.content).reports := by
    refine (List.map_congr_left fun r hr => ?_).trans (List.map_id _)
    rw [Report.mapSpan, Group.normalize_of_mem_find hr, id]
  rw [Compilation.reports, diagnostics_compile, List.map_map, reports_fragments]
  change List.map (Report.mapSpan Span.normalize) _ = _
  rw [List.map_append, hfind]

theorem groupReports_append {s : Text} (h : depth s = 0) (t : Text) :
    c.groupReports (s ++ t) =
      c.groupReports s ++ (c.groupReports t).map (Report.shift s.bytes) := by
  simp only [groupReports, Group.find_append h, List.flatMap_append, List.flatMap_map,
    List.map_flatMap, reports_compileGroup_shift]

theorem lines_eq (fragments : List (Option Fragment)) :
    lines fragments =
      (fragments.map (Option.map Fragment.latex)).flatMap (·.elim [] (· ++ ['\n'])) := by
  rw [lines, List.flatMap_map]
  congr 1
  funext fragment
  cases fragment <;> rfl

theorem lines_append {s : Text} (h : depth s = 0) (t : Text) :
    lines (c.fragments (s ++ t)).value =
      lines (c.fragments s).value ++ lines (c.fragments t).value := by
  simp only [lines_eq, value_fragments, Group.find_append h, List.map_append, List.map_map,
    Function.comp_def, latex_compileGroup_shift, List.flatMap_append]

theorem reports_fragments_append {s : Text} (h : depth s = 0) (t : Text) :
    (c.fragments (s ++ t)).reports = [] ↔
      (c.fragments s).reports = [] ∧ (c.fragments t).reports = [] := by
  simp only [reports_fragments, groupReports_append c h, Group.find_append h,
    List.append_eq_nil_iff, List.map_eq_nil_iff]
  tauto

/-- **Compiling is compositional.** Behind a source `s` that leaves no parenthesis open, another
source is compiled as on its own. Its groups and reports come with all spans moved by the bytes of
`s`; reports on parentheses stay in front of all others. There is an output exactly if both sources
have one, and it is the one behind the other. -/
theorem compile_append (name : String) {s : Text} (h : depth s = 0) (t : Text) :
    (Group.find (s ++ t)).value =
      (Group.find s).value ++ (Group.find t).value.map (Group.shift s.bytes) ∧
    (∃ rest : Text → List Report,
      (∀ u, (c.compile ⟨name, u⟩).reports = (Group.find u).reports ++ rest u) ∧
      (c.compile ⟨name, s ++ t⟩).reports =
        (Group.find s).reports ++ (Group.find t).reports.map (Report.shift s.bytes) ++
          rest s ++ (rest t).map (Report.shift s.bytes)) ∧
    (c.compile ⟨name, s ++ t⟩).output =
      Option.map₂ (· ++ ·) (c.compile ⟨name, s⟩).output (c.compile ⟨name, t⟩).output := by
  refine ⟨by rw [Group.find_append h], ⟨_, fun u => c.reports_compile ⟨name, u⟩, ?_⟩, ?_⟩
  · have hnormalize : ∀ r : Report, (r.shift s.bytes).mapSpan Span.normalize =
        (r.mapSpan Span.normalize).shift s.bytes := by
      intro r
      simp only [Report.mapSpan, Span.normalize_shift]
    simp only [reports_compile, Group.find_append h, groupReports_append c h, List.map_append,
      List.map_map, Function.comp_def, hnormalize, List.append_assoc]
  · simp only [output_compile, reports_fragments_append c h, lines_append c h]
    by_cases hs : (c.fragments s).reports = []
    · by_cases ht : (c.fragments t).reports = []
      · simp [hs, ht]
      · simp [ht]
    · simp [hs]

/-- A stray parenthesis and an unknown command in a source with a wide character, and behind it an
argument without command and a group that is not closed. -/
theorem compile_append_faulty :
    depth "é)(nope x)".toList = 0 ∧
    (Group.find ("é)(nope x)".toList ++ "(add 1 ())(".toList)).value =
      [⟨3, "nope x".toList⟩, ⟨11, "add 1 ()".toList⟩] ∧
    (compile { maxDepth := 2 } ⟨"input", "é)(nope x)".toList ++ "(add 1 ())(".toList⟩).reports =
      [mismatch 2, mismatch 21, ⟨.unknownCommand "nope".toList, ⟨4, 8⟩⟩,
        ⟨.commandExpected none, ⟨19, 19⟩⟩] ∧
    (compile { maxDepth := 2 } ⟨"input", "é)(nope x)".toList ++ "(add 1 ())(".toList⟩).output =
      none := by
  obtain ⟨hgroups, ⟨rest, hrest, hreports⟩, houtput⟩ :=
    compile_append { maxDepth := 2 } "input" (s := "é)(nope x)".toList) (by decide)
      "(add 1 ())(".toList
  have hfirst : rest "é)(nope x)".toList = [⟨.unknownCommand "nope".toList, ⟨4, 8⟩⟩] :=
    List.append_cancel_left ((hrest _).symm.trans (by decide +kernel))
  have hsecond : rest "(add 1 ())(".toList = [⟨.commandExpected none, ⟨8, 8⟩⟩] :=
    List.append_cancel_left ((hrest _).symm.trans (by decide +kernel))
  refine ⟨by decide, hgroups.trans (by decide +kernel), ?_, houtput.trans (by decide +kernel)⟩
  rw [hreports, hfirst, hsecond]
  decide +kernel

end Compiler

end GraphTex
