import GraphTex.Registry

/-!
# Rendering

A node is rendered by the rule of its command. An unknown command is reported and renders as
nothing. A wrong number of arguments is reported unless some argument was dropped by the reader,
which has been reported already, and the rule is applied all the same.
-/

namespace GraphTex

/-- The report on a number of arguments that a command does not take. -/
def Command.arityReports (c : Command) (count : Nat) (span : Span) : List Report :=
  if c.arity.accepts count then []
  else [⟨.arityMismatch c.name c.arity.text count, span⟩]

namespace Registry

mutual

/-- Renders an expression. -/
def render (r : Registry) : Node → Logged Text
  | ⟨command, commandSpan, args, span, droppedArgs⟩ =>
    match r.get? command with
    | none => .failing [] (.unknownCommand command) commandSpan
    | some c => do
      .tell (if droppedArgs then [] else c.arityReports args.length span)
      .tell (c.rule.requirement.elim [] (·.violations command args))
      let fragments ← r.renderArgs command c.rule.slots c.rule.rest args
      pure (c.rule.template.fill fragments)

/-- Renders an argument of the given command at a position. -/
def renderArg (r : Registry) (command : Text) (position : Position) : Argument → Logged Text
  | .literal text span => position.renderLiteral text span
  | .expr node => do
    .tell (position.misuse command node.span)
    r.render node

/-- Renders arguments of the given command at the positions that a rule gives them. -/
def renderArgs (r : Registry) (command : Text) :
    List Slot → Option Position → List Argument → Logged (List Text)
  | slots, _, [] => pure (slots.map Slot.missing)
  | [], none, _ :: _ => pure []
  | [], some position, arg :: args => do
    let fragment ← r.renderArg command position arg
    let fragments ← r.renderArgs command [] (some position) args
    pure (fragment :: fragments)
  | slot :: slots, rest, arg :: args => do
    let fragment ← r.renderArg command slot.position arg
    let fragments ← r.renderArgs command slots rest args
    pure (fragment :: fragments)

end

end Registry

end GraphTex
