import GraphTex.Compiler

/-!
# Sessions

A session is a registry, a sink and a nesting limit that outlive a single source. It goes on by
steps, each with an answer. Work that reports does so into the session's sink; a compile points the
sink at its source first.
-/

namespace GraphTex

/-- The state of a session. -/
structure Session extends Compiler where
  sink : Sink := {}

namespace Session

/-- A step of a session. -/
inductive Step where
  /-- Compiles a source. -/
  | compile (source : Source)
  /-- Empties the sink and points it at a source. -/
  | reset (source : Source)
  /-- Takes a new sink. -/
  | freshSink
  /-- Reports a fault on the current source. -/
  | report (fault : Fault) (span : Span)
  /-- Hands out the diagnostics and empties the sink. -/
  | take
  /-- Shows the diagnostics. -/
  | diagnostics
  /-- Shows the messages of the diagnostics. -/
  | messages
  /-- Shows the current source. -/
  | source
  /-- Finds groups. -/
  | groups (source : Text)
  /-- Cuts a text at an offset into tokens. -/
  | tokens (offset : Nat) (text : Text)
  /-- Reads a text at an offset as an expression. -/
  | expression (offset : Nat) (text : Text)
  /-- Renders a tree. -/
  | render (node : Node)
  /-- Reads and renders all groups. -/
  | fragments (source : Text)
  /-- Sets the nesting limit. -/
  | limit (maxDepth : Nat)
  /-- Takes another registry. -/
  | registry (registry : Registry)
  /-- Registers families of commands, one after the other. -/
  | families (families : List Family)
  /-- Registers a command that has the rule of a command of the catalogue. -/
  | register (name : Text) (arity : Arity) (usage : String) (rule : Text)
  /-- Looks a command up. -/
  | lookup (name : Text)
  /-- Lists the commands by name. -/
  | commands

/-- The answer to a step. -/
inductive Answer where
  | done
  | output (output : Option Text)
  | diagnostics (diagnostics : List Diagnostic)
  | messages (messages : List String)
  | source (source : Source)
  | groups (groups : List Group)
  | tokens (tokens : List Token)
  | node (node : Option Node)
  | latex (latex : Text)
  | fragments (fragments : List (Option Fragment))
  /-- The number of registered commands. -/
  | size (size : Nat)
  | command (command : Option Command)
  | commands (commands : List Command)

/-- Does work that reports into the sink. -/
def reporting {α : Type} (s : Session) (work : Logged α) (answer : α → Answer) :
    Answer × Session :=
  (answer work.value, { s with sink := s.sink.record work.reports })

/-- Goes on with another registry. -/
def withRegistry (s : Session) (registry : Registry) : Answer × Session :=
  (.size registry.size, { s with registry })

/-- One step. -/
def step (s : Session) : Step → Answer × Session
  | .compile source =>
    let (output, sink) := s.compileInto s.sink source
    (.output output, { s with sink })
  | .reset source => (.done, { s with sink := s.sink.reset source })
  | .freshSink => (.done, { s with sink := {} })
  | .report fault span => s.reporting (.tell [⟨fault, span⟩]) fun _ => .done
  | .take =>
    let (diagnostics, sink) := s.sink.take
    (.diagnostics diagnostics, { s with sink })
  | .diagnostics => (.diagnostics s.sink.diagnostics, s)
  | .messages => (.messages (s.sink.diagnostics.map Diagnostic.message), s)
  | .source => (.source s.sink.source, s)
  | .groups source => s.reporting (Group.find source) .groups
  | .tokens offset text => s.reporting (Token.split offset text) .tokens
  | .expression offset text => s.reporting (s.readExpression offset text) .node
  | .render node => s.reporting (s.registry.render node) .latex
  | .fragments source => s.reporting (s.toCompiler.fragments source) .fragments
  | .limit maxDepth => (.done, { s with maxDepth })
  | .registry registry => s.withRegistry registry
  | .families families =>
    s.withRegistry (s.registry.registerAll (families.flatMap Family.commands))
  | .register name arity usage rule =>
    s.withRegistry <|
      match Registry.standard.get? rule with
      | some command => s.registry.register { name, arity, usage, rule := command.rule }
      | none => s.registry
  | .lookup name => (.command (s.registry.get? name), s)
  | .commands => (.commands s.registry.sorted, s)

/-- Steps in order: the answers with the state behind each. -/
def run (s : Session) : List Step → List (Answer × Session)
  | [] => []
  | step :: steps =>
    let result := s.step step
    result :: result.2.run steps

end Session

end GraphTex
