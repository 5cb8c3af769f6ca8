import GraphTex.Catalogue
import GraphTex.Group
import GraphTex.Node.Reader
import GraphTex.Options
import GraphTex.Rendering
import GraphTex.Sink

/-!
# Compiling a source

Every group of a source is read and rendered on its own. The output has one line for each group,
and there is an output only if nothing is reported.
-/

namespace GraphTex

/-- The commands that are known, with the options of the work. -/
structure Compiler extends Options where
  registry : Registry := .standard

/-- A node and its rendered form. -/
structure Fragment where
  node : Node
  latex : Text

/-- What compiling a source gives. -/
structure Compilation where
  output : Option Text
  diagnostics : List Diagnostic

namespace Compiler

/-- Reads text that stands at `offset` between a pair of parentheses. -/
def readExpression (c : Compiler) (offset : Nat) (text : Text) : Logged (Option Node) :=
  Node.read c.maxDepth c.maxDepth offset text

/-- Reads the content of a group. -/
def readGroup (c : Compiler) (g : Group) : Logged (Option Node) :=
  c.readExpression g.contentSpan.start g.content

/-- The trees of all groups that can be read. -/
def parse (c : Compiler) (source : Text) : Logged (List Node) := do
  let groups ← Group.find source
  let nodes ← Logged.each c.readGroup groups
  pure (nodes.filterMap id)

/-- Reads a group and renders its tree, if there is one. -/
def compileGroup (c : Compiler) (g : Group) : Logged (Option Fragment) := do
  match ← c.readGroup g with
  | none => pure none
  | some node => do
    let latex ← c.registry.render node
    pure (some { node, latex })

/-- The fragments of all groups, in spite of reports. -/
def fragments (c : Compiler) (source : Text) : Logged (List (Option Fragment)) := do
  let groups ← Group.find source
  Logged.each c.compileGroup groups

/-- Fragments one a line. -/
def lines (fragments : List (Option Fragment)) : Text :=
  fragments.flatMap fun
    | some fragment => fragment.latex ++ ['\n']
    | none => []

/-- Compiles a source with a sink that may have been used before. There is an output if the sink
is left without diagnostics. -/
def compileInto (c : Compiler) (sink : Sink) (source : Source) : Option Text × Sink :=
  let result := c.fragments source.content
  let sink := (sink.reset source).record result.reports
  (if sink.isValid then some (lines result.value) else none, sink)

/-- Compiles a source. -/
def compile (c : Compiler) (source : Source) : Compilation :=
  let (output, sink) := c.compileInto {} source
  { output, diagnostics := sink.diagnostics }

end Compiler

end GraphTex
