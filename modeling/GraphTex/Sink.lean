import GraphTex.Report

/-!
# Diagnostics and their sink

A diagnostic is a report tied to the source it is about. A sink collects diagnostics in the order
in which they are reported, each under the source the sink is pointed at when the report is made.
The source is made ready for diagnostics once, when the sink is pointed at it or with the first
report, and all later diagnostics share it.
-/

namespace GraphTex

/-- A named text. -/
structure Source where
  name : String
  content : Text
  deriving DecidableEq, Repr

/-- The source that stands in where there is none; its content says why. -/
def Source.fallback (context : Text) : Source := ⟨"fallback", "// ".toList ++ context⟩

/-- A fault at a place of a source. -/
structure Diagnostic where
  fault : Fault
  span : Span
  source : Source
  deriving DecidableEq, Repr

namespace Diagnostic

/-- A report on the given source. Its span never stops before it starts. -/
def ofReport (source : Source) (r : Report) : Diagnostic := ⟨r.fault, r.span.normalize, source⟩

/-- A fault that has no place in a text. -/
def standalone (source : Source) (fault : Fault) : Diagnostic := ⟨fault, ⟨0, 0⟩, source⟩

/-- The line shown to the user. -/
def message (d : Diagnostic) : String := "Error: " ++ d.fault.message

/-- The code of the fault. -/
def code (d : Diagnostic) : String := d.fault.code

end Diagnostic

/-- The diagnostics found so far and the source that new ones are about. -/
structure Sink where
  source : Source := .fallback "default context".toList
  /-- The source that diagnostics share, once it is ready. -/
  shared : Option Source := none
  diagnostics : List Diagnostic := []
  deriving DecidableEq, Repr

namespace Sink

/-- Nothing has been reported. -/
def isValid (s : Sink) : Bool := s.diagnostics.isEmpty

/-- Adds a report under the shared source, which is made ready if it is not yet. -/
def report (s : Sink) (r : Report) : Sink :=
  let shared := s.shared.getD s.source
  { s with shared := some shared, diagnostics := s.diagnostics ++ [.ofReport shared r] }

/-- Adds reports one after the other. -/
def record (s : Sink) (reports : List Report) : Sink := reports.foldl report s

/-- Forgets all diagnostics and points the sink at another source. -/
def reset (_ : Sink) (source : Source) : Sink :=
  { source, shared := some source, diagnostics := [] }

/-- A new sink for a source. -/
def about (source : Source) : Sink := ({} : Sink).reset source

/-- Hands out all diagnostics and keeps none. -/
def take (s : Sink) : List Diagnostic × Sink := (s.diagnostics, { s with diagnostics := [] })

@[simp] theorem source_reset (s : Sink) (source : Source) : (s.reset source).source = source := rfl

@[simp] theorem shared_reset (s : Sink) (source : Source) :
    (s.reset source).shared = some source := rfl

@[simp] theorem diagnostics_reset (s : Sink) (source : Source) :
    (s.reset source).diagnostics = [] := rfl

@[simp] theorem source_record (s : Sink) (reports : List Report) :
    (s.record reports).source = s.source := by
  unfold record
  induction reports generalizing s with
  | nil => rfl
  | cons r reports ih => exact ih (s.report r)

/-- The first report settles the shared source for all that follow. -/
@[simp] theorem diagnostics_record (s : Sink) (reports : List Report) :
    (s.record reports).diagnostics =
      s.diagnostics ++ reports.map (Diagnostic.ofReport (s.shared.getD s.source)) := by
  unfold record
  induction reports generalizing s with
  | nil => simp
  | cons r reports ih =>
    rw [List.foldl_cons, ih, List.map_cons]
    simp [report]

end Sink

end GraphTex
