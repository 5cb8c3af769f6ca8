import GraphTex.Rendering
import GraphTex.Proofs.Trees
import Mathlib.Data.List.Basic
import Mathlib.Tactic.SplitIfs

/-!
# Rendering, case by case

A rule looks at some of the arguments of a node, each at a position (`Rule.places`), and the
reports on a node are those on its arity, on its requirement and on the arguments at their
positions, in this order (`render_known`). Later proofs use these equations and do not open the
renderer. All reports are of the rendering phase (`phase_of_mem_render`).
-/

namespace GraphTex

/-- The position of the argument with an index, if rules with these slots look at it. -/
def Slot.positionAt (slots : List Slot) (rest : Option Position) (index : Nat) : Option Position :=
  (slots[index]?.map Slot.position).or rest

/-- The arguments that rules with these slots look at, each with its position. -/
def Slot.places : List Slot → Option Position → List Argument → List (Position × Argument)
  | _, _, [] => []
  | [], none, _ :: _ => []
  | [], some position, arg :: args => (position, arg) :: places [] (some position) args
  | slot :: slots, rest, arg :: args => (slot.position, arg) :: places slots rest args

/-- An argument is looked at exactly if its index has a position. -/
theorem Slot.mem_places {slots : List Slot} {rest : Option Position} {args : List Argument}
    {position : Position} {arg : Argument} :
    (position, arg) ∈ places slots rest args ↔
      ∃ i, args[i]? = some arg ∧ positionAt slots rest i = some position := by
  fun_induction places slots rest args with
  | case1 => simp
  | case2 => simp [positionAt]
  | case3 position first args ih =>
    rw [List.mem_cons, ih]
    constructor
    · rintro (h | ⟨i, harg, hposition⟩)
      · obtain ⟨rfl, rfl⟩ := Prod.mk.inj h
        exact ⟨0, rfl, rfl⟩
      · exact ⟨i + 1, harg, hposition⟩
    · rintro ⟨i, harg, hposition⟩
      cases i with
      | zero =>
        left
        simp_all [positionAt]
      | succ i => exact .inr ⟨i, harg, hposition⟩
  | case4 slot slots rest first args ih =>
    rw [List.mem_cons, ih]
    constructor
    · rintro (h | ⟨i, harg, hposition⟩)
      · obtain ⟨rfl, rfl⟩ := Prod.mk.inj h
        exact ⟨0, rfl, rfl⟩
      · exact ⟨i + 1, harg, by simpa [positionAt] using hposition⟩
    · rintro ⟨i, harg, hposition⟩
      cases i with
      | zero =>
        left
        simp_all [positionAt]
      | succ i => exact .inr ⟨i, harg, by simpa [positionAt] using hposition⟩

/-- The position of the argument with an index, if the rule looks at it. -/
def Rule.positionAt (rule : Rule) (index : Nat) : Option Position :=
  Slot.positionAt rule.slots rule.rest index

/-- The arguments that a rule looks at, each with its position. -/
def Rule.places (rule : Rule) (args : List Argument) : List (Position × Argument) :=
  Slot.places rule.slots rule.rest args

namespace Registry

variable {r : Registry} {n : Node}

/-- A command that is found is registered under its own name. -/
theorem get?_eq_some {name : Text} {c : Command} (h : r.get? name = some c) :
    c ∈ r.commands ∧ c.name = name :=
  ⟨List.mem_of_find?_eq_some h, by simpa using List.find?_some h⟩

theorem reports_renderArgs (command : Text) (slots : List Slot) (rest : Option Position)
    (args : List Argument) :
    (r.renderArgs command slots rest args).reports =
      (Slot.places slots rest args).flatMap fun (position, arg) =>
        (r.renderArg command position arg).reports := by
  fun_induction Slot.places slots rest args with
  | case1 => rw [renderArgs]; rfl
  | case2 => rw [renderArgs]; rfl
  | case3 position first args ih =>
    rw [renderArgs]
    simp [ih]
  | case4 slot slots rest first args ih =>
    rw [renderArgs]
    simp [ih]

/-- The fragments are those of the arguments that are looked at, and behind them what stands in for
missing arguments. -/
theorem value_renderArgs (command : Text) (slots : List Slot) (rest : Option Position)
    (args : List Argument) :
    (r.renderArgs command slots rest args).value =
      (Slot.places slots rest args).map
          (fun place => (r.renderArg command place.1 place.2).value) ++
        (slots.drop args.length).map Slot.missing := by
  fun_induction Slot.places slots rest args with
  | case1 => rw [renderArgs]; rfl
  | case2 => rw [renderArgs]; rfl
  | case3 position first args ih =>
    rw [renderArgs]
    simp [ih]
  | case4 slot slots rest first args ih =>
    rw [renderArgs]
    simp [ih]

theorem value_renderArgs_cons (command : Text) (slot : Slot) (slots : List Slot)
    (rest : Option Position) (arg : Argument) (args : List Argument) :
    (r.renderArgs command (slot :: slots) rest (arg :: args)).value =
      (r.renderArg command slot.position arg).value ::
        (r.renderArgs command slots rest args).value := by
  rw [renderArgs]
  simp

theorem render_unknown (h : r.get? n.command = none) :
    r.render n = ⟨[], [⟨.unknownCommand n.command, n.commandSpan⟩]⟩ := by
  cases n
  rw [render, h]
  rfl

theorem render_known {c : Command} (h : r.get? n.command = some c) :
    r.render n =
      ⟨c.rule.template.fill (r.renderArgs n.command c.rule.slots c.rule.rest n.args).value,
        (if n.droppedArgs then [] else c.arityReports n.args.length n.span) ++
          (c.rule.requirement.elim [] (·.violations n.command n.args) ++
            (r.renderArgs n.command c.rule.slots c.rule.rest n.args).reports)⟩ := by
  cases n
  rw [render, h]
  change (⟨_, _ ++ (_ ++ (_ ++ []))⟩ : Logged Text) = _
  rw [List.append_nil]
  rfl

theorem reports_render_known {c : Command} (h : r.get? n.command = some c) :
    (r.render n).reports =
      (if n.droppedArgs then [] else c.arityReports n.args.length n.span) ++
        (c.rule.requirement.elim [] (·.violations n.command n.args) ++
          (c.rule.places n.args).flatMap fun (position, arg) =>
            (r.renderArg n.command position arg).reports) := by
  rw [render_known h, reports_renderArgs, Rule.places]

theorem renderArg_literal (command text : Text) (span : Span) (position : Position) :
    r.renderArg command position (.literal text span) = position.renderLiteral text span := by
  rw [renderArg]

theorem renderArg_expr (command : Text) (position : Position) :
    r.renderArg command position (.expr n) =
      ⟨(r.render n).value, position.misuse command n.span ++ (r.render n).reports⟩ := by
  rw [renderArg]
  rfl

end Registry

/-! ### Literals -/

theorem Position.renderName_cases (text : Text) :
    ∃ written, (∀ span, renderName text span = ⟨written, []⟩) ∨
      ∃ fault, (∀ span, renderName text span = ⟨written, [⟨fault, span⟩]⟩) ∧
        (text = [] ∧ fault = .emptyIdentifier [] ∨ fault = .malformedIdentifier text) := by
  cases text with
  | nil => exact ⟨[], .inr ⟨_, fun _ => rfl, .inl ⟨rfl, rfl⟩⟩⟩
  | cons c rest =>
    cases hformat : Literal.formatName (c :: rest) with
    | ok written => exact ⟨written, .inl fun span => by rw [renderName, hformat]; rfl⟩
    | error fault =>
      refine ⟨c :: rest, .inr ⟨fault, fun span => by rw [renderName, hformat]; rfl, .inr ?_⟩⟩
      rw [Literal.formatName] at hformat
      split_ifs at hformat
      exact (Except.error.inj hformat).symm

/-- **What becomes of a literal.** What is written for it and what is wrong with it do not depend on
where it stands. At most one thing is wrong, which is that the literal is no name: it is empty, or
else it is malformed. -/
theorem Position.renderLiteral_cases (position : Position) (text : Text) :
    ∃ written, (∀ span, position.renderLiteral text span = ⟨written, []⟩) ∨
      ∃ fault, (∀ span, position.renderLiteral text span = ⟨written, [⟨fault, span⟩]⟩) ∧
        (text = [] ∧ fault = .emptyIdentifier [] ∨ fault = .malformedIdentifier text) := by
  cases position with
  | value =>
    simp only [renderLiteral]
    split_ifs
    · exact ⟨text, .inl fun _ => rfl⟩
    · exact renderName_cases text
  | name role => exact renderName_cases text
  | verbatim => exact ⟨text, .inl fun _ => rfl⟩

/-- What is reported on a literal is at the literal, and it is that the literal is no name. -/
theorem Position.mem_renderLiteral {position : Position} {text : Text} {span : Span}
    {report : Report} (h : report ∈ (position.renderLiteral text span).reports) :
    report.span = span ∧
      (text = [] ∧ report.fault = .emptyIdentifier [] ∨
        report.fault = .malformedIdentifier text) := by
  obtain ⟨written, hnone | ⟨fault, hone, hfault⟩⟩ := position.renderLiteral_cases text
  · rw [hnone] at h
    exact absurd h List.not_mem_nil
  · rw [hone] at h
    rw [List.mem_singleton.1 h]
    exact ⟨rfl, hfault⟩

/-! ### What is reported -/

/-- An expression is reported where a name is taken, at the expression. -/
theorem Position.mem_misuse {position : Position} {command : Text} {span : Span} {report : Report}
    (h : report ∈ position.misuse command span) :
    ∃ role, position = .name role ∧ report = ⟨.expectedIdentifier command role, span⟩ := by
  cases position with
  | value => exact absurd h List.not_mem_nil
  | name role => exact ⟨role, rfl, List.mem_singleton.1 h⟩
  | verbatim => exact absurd h List.not_mem_nil

theorem Command.mem_arityReports {c : Command} {dropped : Bool} {count : Nat} {span : Span}
    {report : Report} (h : report ∈ if dropped then [] else c.arityReports count span) :
    report = ⟨.arityMismatch c.name c.arity.text count, span⟩ := by
  rw [Command.arityReports] at h
  split_ifs at h
  · exact absurd h List.not_mem_nil
  · exact absurd h List.not_mem_nil
  · exact List.mem_singleton.1 h

/-- An argument that does not meet a requirement is reported at the argument. -/
theorem Requirement.mem_violations {req : Requirement} {command : Text} {args : List Argument}
    {report : Report} (h : report ∈ req.violations command args) :
    ∃ arg ∈ args,
      arg.isNumber = true ∧ report = ⟨.unexpectedNumber command, arg.span⟩ ∨
        arg.isCallOf "params".toList = false ∧ report = ⟨.expectedParams command, arg.span⟩ := by
  cases req with
  | noNumbers =>
    obtain ⟨arg, hfound, rfl⟩ := List.mem_map.1 h
    obtain ⟨harg, hnumber⟩ := List.mem_filter.1 hfound
    exact ⟨arg, harg, .inl ⟨hnumber, rfl⟩⟩
  | paramsAt i =>
    obtain ⟨arg, hfound, rfl⟩ := List.mem_map.1 h
    obtain ⟨hindex, hcall⟩ := List.mem_filter.1 hfound
    have harg : arg ∈ args := List.mem_of_getElem? (Option.mem_toList.1 hindex)
    exact ⟨arg, harg, .inr ⟨by simpa using hcall, rfl⟩⟩

/-- **Rendering makes reports of its own phase only.** -/
theorem Registry.phase_of_mem_render {r : Registry} {n : Node} {report : Report}
    (h : report ∈ (r.render n).reports) : report.fault.phase = .render := by
  induction n using Node.induction generalizing report with
  | node n ih =>
    cases hget : r.get? n.command with
    | none =>
      rw [Registry.render_unknown hget] at h
      rw [List.mem_singleton.1 h]
      rfl
    | some c =>
      rw [Registry.reports_render_known hget, List.mem_append, List.mem_append,
        List.mem_flatMap] at h
      rcases h with harity | hrequired | ⟨⟨position, arg⟩, hplace, hmem⟩
      · rw [Command.mem_arityReports harity]
        rfl
      · cases hreq : c.rule.requirement with
        | none => simp [hreq] at hrequired
        | some req =>
          rw [hreq] at hrequired
          obtain ⟨arg, -, ⟨-, rfl⟩ | ⟨-, rfl⟩⟩ := Requirement.mem_violations hrequired <;> rfl
      · change report ∈ (r.renderArg n.command position arg).reports at hmem
        cases arg with
        | literal text span =>
          rw [Registry.renderArg_literal] at hmem
          rcases (Position.mem_renderLiteral hmem).2 with ⟨-, hfault⟩ | hfault <;>
            rw [hfault] <;> rfl
        | expr child =>
          rw [Registry.renderArg_expr] at hmem
          obtain ⟨i, hi, -⟩ := Slot.mem_places.1 hplace
          rcases List.mem_append.1 hmem with hmisuse | hchild
          · obtain ⟨role, -, rfl⟩ := Position.mem_misuse hmisuse
            rfl
          · exact ih child (List.mem_of_getElem? hi) hchild

end GraphTex
