import GraphTex.Proofs.Compiling
import GraphTex.Session
import Mathlib.Data.List.Induction

/-!
# Whose diagnostics these are

A sink outlives the source it is pointed at, and it keeps that source in two places: as the current
one, and as the one that diagnostics share, which is made ready late and is left alone when the
diagnostics are taken out. What a step of a session can do to the sink is said once, by the source
it points to, by whether it takes diagnostics away, and by what it reports (`SinkStep`). From this
follows what holds along every run:

* the two places agree (`Sink.Settled`), so a report never gets the source of an earlier time;
* every diagnostic is recorded under the source of the latest compile or reset before it;
* diagnostics stay in the order of the reports until a step takes all of them away;
* a compile leaves what it leaves with a new sink.

The main statement is `sink_attribution`.
-/

namespace GraphTex

namespace Sink

/-- The source that diagnostics share is the current one, if it is ready. -/
def Settled (s : Sink) : Prop := s.shared.getD s.source = s.source

theorem settled_empty : ({} : Sink).Settled := rfl

theorem settled_reset (s : Sink) (source : Source) : (s.reset source).Settled := rfl

theorem Settled.record {s : Sink} (h : s.Settled) (reports : List Report) :
    (s.record reports).Settled := by
  unfold Sink.record
  induction reports generalizing s with
  | nil => exact h
  | cons r reports ih => exact ih (s := s.report r) h

/-- A sink as it is made: with no source given, or for a source. -/
def IsNew (s : Sink) : Prop := s = {} ∨ ∃ source, s = about source

theorem IsNew.settled {s : Sink} (h : s.IsNew) : s.Settled := by
  rcases h with rfl | ⟨source, rfl⟩
  · exact settled_empty
  · exact settled_reset {} source

theorem IsNew.diagnostics {s : Sink} (h : s.IsNew) : s.diagnostics = [] := by
  rcases h with rfl | ⟨source, rfl⟩ <;> rfl

end Sink

/-! ### What a step does to the sink -/

/-- What a step does to a sink: it may point it at a source, it may take the diagnostics away, and
it adds what it reports, under the source that the sink is pointed at behind the step. -/
structure SinkStep (before after : Sink) (target? : Option Source) (empties : Bool)
    (reports : List Report) : Prop where
  settled : after.Settled
  source : after.source = target?.getD before.source
  diagnostics :
    after.diagnostics =
      (if empties then [] else before.diagnostics) ++
        reports.map (Diagnostic.ofReport (target?.getD before.source))

namespace SinkStep

variable {s : Sink}

theorem idle (h : s.Settled) : SinkStep s s none false [] where
  settled := h
  source := rfl
  diagnostics := (List.append_nil s.diagnostics).symm

theorem record (h : s.Settled) (reports : List Report) :
    SinkStep s (s.record reports) none false reports where
  settled := h.record reports
  source := s.source_record reports
  diagnostics := by
    rw [Sink.diagnostics_record, h]
    rfl

theorem reset (s : Sink) (source : Source) : SinkStep s (s.reset source) (some source) true [] where
  settled := s.settled_reset source
  source := rfl
  diagnostics := rfl

theorem replace (s : Sink) : SinkStep s {} (some ({} : Sink).source) true [] where
  settled := Sink.settled_empty
  source := rfl
  diagnostics := rfl

theorem take (h : s.Settled) : SinkStep s s.take.2 none true [] where
  settled := h
  source := rfl
  diagnostics := rfl

theorem compile (c : Compiler) (s : Sink) (source : Source) :
    SinkStep s (c.compileInto s source).2 (some source) true
      (c.fragments source.content).reports where
  settled := by
    rw [c.compileInto_sink]
    exact (s.settled_reset source).record _
  source := by
    rw [c.compileInto_sink, Sink.source_record]
    rfl
  diagnostics := c.diagnostics_compileInto s source

end SinkStep

namespace Session

/-- The source that a step points the sink at, if it does so. A new sink has the fallback. -/
def Step.target? : Step → Option Source
  | .compile next | .reset next => some next
  | .freshSink => some (.fallback "default context".toList)
  | _ => none

/-- The diagnostics that are in the sink are taken away. -/
def Step.empties : Step → Bool
  | .compile _ | .reset _ | .freshSink | .take => true
  | _ => false

/-- A step that points the sink elsewhere takes the diagnostics away. -/
theorem Step.target?_eq_none {step : Step} (h : step.empties = false) : step.target? = none := by
  cases step with
  | compile next => cases h
  | reset next => cases h
  | freshSink => cases h
  | _ => rfl

/-- What a step reports, with the registry and the limit of the session. -/
def Step.reports (c : Compiler) : Step → List Report
  | .compile next => (c.fragments next.content).reports
  | .report fault span => [⟨fault, span⟩]
  | .groups text => (Group.find text).reports
  | .tokens offset text => (Token.split offset text).reports
  | .expression offset text => (c.readExpression offset text).reports
  | .render node => (c.registry.render node).reports
  | .fragments text => (c.fragments text).reports
  | _ => []

/-- **What one step does to the sink**, one case for each kind of step. -/
theorem sinkStep {s : Session} (h : s.sink.Settled) (step : Step) :
    SinkStep s.sink (s.step step).2.sink step.target? step.empties
      (step.reports s.toCompiler) := by
  cases step with
  | compile source => exact .compile s.toCompiler s.sink source
  | reset source => exact .reset s.sink source
  | freshSink => exact .replace s.sink
  | take => exact .take h
  | report fault span => exact .record h _
  | groups source => exact .record h _
  | tokens offset text => exact .record h _
  | expression offset text => exact .record h _
  | render node => exact .record h _
  | fragments source => exact .record h _
  | diagnostics => exact .idle h
  | messages => exact .idle h
  | source => exact .idle h
  | limit maxDepth => exact .idle h
  | registry registry => exact .idle h
  | families families => exact .idle h
  | register name arity usage rule => exact .idle h
  | lookup name => exact .idle h
  | commands => exact .idle h

/-! ### Runs -/

/-- The state behind steps. -/
def after (s : Session) (steps : List Step) : Session :=
  steps.foldl (fun s step => (s.step step).2) s

@[simp] theorem after_nil (s : Session) : s.after [] = s := rfl

theorem after_append (s : Session) (first second : List Step) :
    s.after (first ++ second) = (s.after first).after second := List.foldl_append

theorem after_concat (s : Session) (steps : List Step) (step : Step) :
    s.after (steps ++ [step]) = ((s.after steps).step step).2 := s.after_append steps [step]

/-- The answers of a run, and the states in it, are those of its steps one by one. -/
theorem getElem?_run (s : Session) (before : List Step) (step : Step) (later : List Step) :
    (s.run (before ++ step :: later))[before.length]? = some ((s.after before).step step) := by
  induction before generalizing s with
  | nil => rfl
  | cons first before ih => exact ih (s.step first).2

/-- The source that the latest of the steps points the sink at, or the given one if none does. -/
def latestSource (start : Source) (steps : List Step) : Source :=
  (steps.reverse.findSome? Step.target?).getD start

theorem latestSource_concat (start : Source) (steps : List Step) (step : Step) :
    latestSource start (steps ++ [step]) = step.target?.getD (latestSource start steps) := by
  unfold latestSource
  rw [List.reverse_concat, List.findSome?_cons]
  cases step.target? <;> rfl

/-- **What a run keeps**: the two places of the source agree, the current source is the latest that
a step pointed to, and every diagnostic in the sink is about it. -/
theorem sink_after {s : Session} (hnew : s.sink.IsNew) (steps : List Step) :
    (s.after steps).sink.Settled ∧
      (s.after steps).sink.source = latestSource s.sink.source steps ∧
      ∀ d ∈ (s.after steps).sink.diagnostics, d.source = latestSource s.sink.source steps := by
  induction steps using List.reverseRecOn with
  | nil =>
    refine ⟨hnew.settled, rfl, fun d hd => ?_⟩
    rw [after_nil, hnew.diagnostics] at hd
    exact absurd hd List.not_mem_nil
  | append_singleton steps step ih =>
    obtain ⟨hsettled, hsource, hdiagnostics⟩ := ih
    have hstep := sinkStep hsettled step
    rw [after_concat, latestSource_concat, ← hsource]
    refine ⟨hstep.settled, hstep.source, fun d hd => ?_⟩
    rw [hstep.diagnostics, List.mem_append] at hd
    rcases hd with hkept | hadded
    · -- a diagnostic is kept only by steps that do not point the sink elsewhere
      cases hempties : step.empties with
      | true =>
        rw [hempties] at hkept
        exact absurd hkept List.not_mem_nil
      | false =>
        rw [hempties] at hkept
        rw [Step.target?_eq_none hempties, Option.getD_none, hsource]
        exact hdiagnostics d hkept
    · obtain ⟨r, -, rfl⟩ := List.mem_map.1 hadded
      rfl

/-- While no step takes diagnostics away, those in the sink stay in front of all later ones. -/
theorem prefix_after {s : Session} (hsettled : s.sink.Settled) {steps : List Step}
    (hkeep : ∀ step ∈ steps, step.empties = false) :
    s.sink.diagnostics <+: (s.after steps).sink.diagnostics := by
  induction steps generalizing s with
  | nil => exact List.prefix_rfl
  | cons step steps ih =>
    have hstep := sinkStep hsettled step
    have hfirst : s.sink.diagnostics <+: (s.step step).2.sink.diagnostics := by
      rw [hstep.diagnostics, hkeep step List.mem_cons_self]
      exact List.prefix_append _ _
    exact hfirst.trans
      (ih hstep.settled fun later hlater => hkeep later (List.mem_cons_of_mem step hlater))

/-- **A sink never mixes sources.** At every step of every run that starts with a new sink, the
diagnostics are those from before the step, unless the step is one that takes them away, and behind
them what the step reports, under the source that the latest compile or reset pointed to. All
diagnostics in the sink are about this source. They stay in front until a step takes them away. A
compile answers, and leaves in the sink, what the same compile does with a new sink. -/
theorem sink_attribution (s : Session) (hnew : s.sink.IsNew) (before : List Step) (step : Step)
    (later : List Step) :
    ∃ answer next, (s.run (before ++ step :: later))[before.length]? = some (answer, next) ∧
      next.sink.diagnostics =
        (if step.empties then [] else (s.after before).sink.diagnostics) ++
          (step.reports (s.after before).toCompiler).map
            (Diagnostic.ofReport (latestSource s.sink.source (before ++ [step]))) ∧
      (∀ d ∈ next.sink.diagnostics, d.source = latestSource s.sink.source (before ++ [step])) ∧
      ((∀ t ∈ later, t.empties = false) →
        next.sink.diagnostics <+: (s.after (before ++ step :: later)).sink.diagnostics) ∧
      ∀ source, step = .compile source →
        answer = .output ((s.after before).compileInto {} source).1 ∧
          next.sink.diagnostics = ((s.after before).compileInto {} source).2.diagnostics := by
  obtain ⟨hsettled, hsource, -⟩ := sink_after hnew before
  have hstep := sinkStep hsettled step
  have hnext : s.after (before ++ [step]) = ((s.after before).step step).2 :=
    s.after_concat before step
  refine ⟨((s.after before).step step).1, ((s.after before).step step).2,
    s.getElem?_run before step later, ?_, ?_, fun hkeep => ?_, ?_⟩
  · rw [latestSource_concat, ← hsource]
    exact hstep.diagnostics
  · rw [← hnext]
    exact (sink_after hnew (before ++ [step])).2.2
  · rw [show before ++ step :: later = (before ++ [step]) ++ later by simp, after_append, hnext]
    exact prefix_after hstep.settled hkeep
  · rintro source rfl
    exact ⟨congrArg Answer.output ((s.after before).compileInto_output _ source),
      (s.after before).compileInto_diagnostics _ source⟩

/-- A sink with a report on the fallback, a failed compile, its diagnostics taken out, and a stray
parenthesis reported behind that, is used for another source. -/
theorem sink_attribution_of_used_sink :
    ∃ next,
      (run { maxDepth := 2 }
        ([.report .mismatchedParentheses ⟨0, 1⟩, .compile ⟨"a.dec", "(nope)".toList⟩, .take,
            .groups ")".toList] ++
          .compile ⟨"b.dec", "(pi".toList⟩ :: [.tokens 7 "x)".toList]))[4]? =
        some (.output none, next) ∧
      next.sink.diagnostics = [⟨.mismatchedParentheses, ⟨0, 1⟩, ⟨"b.dec", "(pi".toList⟩⟩] ∧
      next.sink.diagnostics <+:
        (after { maxDepth := 2 }
          ([.report .mismatchedParentheses ⟨0, 1⟩, .compile ⟨"a.dec", "(nope)".toList⟩, .take,
              .groups ")".toList] ++
            .compile ⟨"b.dec", "(pi".toList⟩ ::
              [.tokens 7 "x)".toList])).sink.diagnostics := by
  obtain ⟨answer, next, hrun, -, -, hprefix, hcompile⟩ :=
    sink_attribution { maxDepth := 2 } (.inl rfl)
      [.report .mismatchedParentheses ⟨0, 1⟩, .compile ⟨"a.dec", "(nope)".toList⟩, .take,
        .groups ")".toList]
      (.compile ⟨"b.dec", "(pi".toList⟩) [.tokens 7 "x)".toList]
  obtain ⟨hanswer, hdiagnostics⟩ := hcompile _ rfl
  have hnone : answer = .output none := hanswer.trans (congrArg Answer.output (by decide +kernel))
  rw [hnone] at hrun
  exact ⟨next, hrun, hdiagnostics.trans (by decide +kernel), hprefix (by simp [Step.empties])⟩

end Session

end GraphTex
