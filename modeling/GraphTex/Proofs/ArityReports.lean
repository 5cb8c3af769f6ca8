import GraphTex.Proofs.Accounting
import GraphTex.Proofs.Phases

/-!
# Reports on the number of arguments

A wrong number of arguments is found when a tree is rendered, from the arguments that reading has
left in it. A node that lost one is not counted, so the number in a report is the number of tokens
behind the command in the source (`Node.length_args_of_read`), and the report is on a node that is
rendered. At the root of a group nothing is missed and nothing is reported twice: the root is
rendered, and no other node of the source has its span. The main statement is
`arity_reports_exact`.
-/

namespace GraphTex

/-- The report is on a number of arguments. -/
def Report.isArityMismatch (r : Report) : Bool :=
  match r.fault with
  | .arityMismatch _ _ _ => true
  | _ => false

/-! ### Rendering -/

theorem Position.arityMismatches_renderLiteral (position : Position) (text : Text) (span : Span) :
    (position.renderLiteral text span).reports.filter Report.isArityMismatch = [] := by
  refine List.filter_eq_nil_iff.2 fun r hr => ?_
  rw [Report.isArityMismatch]
  rcases (mem_renderLiteral hr).2 with ⟨-, hfault⟩ | hfault <;> simp [hfault]

theorem Position.arityMismatches_misuse (position : Position) (command : Text) (span : Span) :
    (position.misuse command span).filter Report.isArityMismatch = [] := by
  cases position <;> rfl

theorem Requirement.arityMismatches_violations (req : Requirement) (command : Text)
    (args : List Argument) :
    (req.violations command args).filter Report.isArityMismatch = [] := by
  refine List.filter_eq_nil_iff.2 fun r hr => ?_
  obtain ⟨arg, -, ⟨-, rfl⟩ | ⟨-, rfl⟩⟩ := Requirement.mem_violations hr <;>
    exact Bool.false_ne_true

/-- The report on the number of arguments of a node, if there is one. -/
def Registry.arityReports (r : Registry) (n : Node) : List Report :=
  (r.get? n.command).elim [] fun c =>
    if n.droppedArgs then [] else c.arityReports n.args.length n.span

theorem Registry.mem_arityReports {r : Registry} {n : Node} {report : Report} :
    report ∈ r.arityReports n ↔ n.droppedArgs = false ∧ ∃ c, r.get? n.command = some c ∧
      c.arity.accepts n.args.length = false ∧
      report = ⟨.arityMismatch n.command c.arity.text n.args.length, n.span⟩ := by
  rw [Registry.arityReports]
  cases hget : r.get? n.command with
  | none => simp
  | some c =>
    have hname : c.name = n.command := (Registry.get?_eq_some hget).2
    cases hdropped : n.droppedArgs with
    | true => simp
    | false => cases haccepts : c.arity.accepts n.args.length <;>
        simp [Command.arityReports, haccepts, hname]

/-- The reports on numbers of arguments in the expressions below a node, as far as it renders
them. -/
def Registry.arityReportsBelow (r : Registry) (n : Node) : List Report :=
  (r.get? n.command).elim [] fun c =>
    (c.rule.places n.args).flatMap fun place =>
      place.2.node?.elim [] fun child => (r.render child).reports.filter Report.isArityMismatch

theorem Registry.exists_of_mem_arityReportsBelow {r : Registry} {n : Node} {report : Report}
    (h : report ∈ r.arityReportsBelow n) :
    ∃ child, .expr child ∈ n.args ∧
      report ∈ (r.render child).reports.filter Report.isArityMismatch := by
  rw [Registry.arityReportsBelow] at h
  cases hget : r.get? n.command with
  | none => simp [hget] at h
  | some c =>
    rw [hget, Option.elim_some, List.mem_flatMap] at h
    obtain ⟨⟨position, arg⟩, hplace, hmem⟩ := h
    obtain ⟨i, hi, -⟩ := Slot.mem_places.1 hplace
    cases arg with
    | literal text span => exact absurd hmem List.not_mem_nil
    | expr child => exact ⟨child, List.mem_of_getElem? hi, hmem⟩

/-- Rendering a tree makes the report on its root, and those on the expressions below it. -/
theorem Registry.arityMismatches_render (r : Registry) (n : Node) :
    (r.render n).reports.filter Report.isArityMismatch =
      r.arityReports n ++ r.arityReportsBelow n := by
  rw [Registry.arityReports, Registry.arityReportsBelow]
  cases hget : r.get? n.command with
  | none =>
    rw [Registry.render_unknown hget]
    rfl
  | some c =>
    have harity :
        (if n.droppedArgs then [] else c.arityReports n.args.length n.span).filter
            Report.isArityMismatch =
          if n.droppedArgs then [] else c.arityReports n.args.length n.span := by
      rw [Command.arityReports]
      split_ifs <;> rfl
    have hrequired : (c.rule.requirement.elim [] (·.violations n.command n.args)).filter
        Report.isArityMismatch = [] := by
      cases c.rule.requirement with
      | none => rfl
      | some req => exact req.arityMismatches_violations n.command n.args
    rw [Registry.reports_render_known hget, List.filter_append, List.filter_append, harity,
      hrequired, List.filter_flatMap, List.nil_append, Option.elim_some, Option.elim_some]
    congr 1
    refine List.flatMap_congr ?_
    rintro ⟨position, arg⟩ -
    change (r.renderArg n.command position arg).reports.filter Report.isArityMismatch = _
    cases arg with
    | literal text span =>
      rw [Registry.renderArg_literal, Position.arityMismatches_renderLiteral]
      rfl
    | expr child =>
      rw [Registry.renderArg_expr, List.filter_append, Position.arityMismatches_misuse]
      rfl

theorem Registry.exists_of_mem_arityMismatches {r : Registry} {n : Node} {report : Report}
    (h : report ∈ (r.render n).reports.filter Report.isArityMismatch) :
    ∃ m ∈ n.nodes, report ∈ r.arityReports m := by
  induction n using Node.induction with
  | node n ih =>
    rw [Registry.arityMismatches_render, List.mem_append] at h
    rcases h with hroot | hbelow
    · exact ⟨n, Node.mem_nodes.2 (.inl rfl), hroot⟩
    · obtain ⟨child, hchild, hmem⟩ := Registry.exists_of_mem_arityReportsBelow hbelow
      obtain ⟨m, hm, hreport⟩ := ih child hchild hmem
      exact ⟨m, Node.mem_nodes.2 (.inr ⟨child, hchild, hm⟩), hreport⟩

/-! ### Counting tokens -/

section Reading

variable {limit levels offset : Nat} {text : Text} {n m : Node}

/-- A node that lost no argument has as many as there are tokens behind its command. -/
theorem Node.length_args_of_read (h : (Node.read limit levels offset text).value = some n)
    (hwhole : n.droppedArgs = false) :
    ∃ head rest, (Token.split offset text).value = head :: rest ∧ n.command = head.text ∧
      n.args.length = rest.length := by
  cases levels with
  | zero => exact absurd h (by simp [Node.read_zero])
  | succ levels =>
    obtain ⟨head, rest, htokens, -, rfl⟩ := Node.read_eq_some h
    refine ⟨head, rest, htokens, rfl, List.filterMap_length_eq_length.2 fun t ht => ?_⟩
    simpa [Option.isSome_iff_ne_none] using List.any_eq_false.1 hwhole t ht

theorem Node.isInside_of_mem_nodes (h : (Node.read limit levels offset text).value = some n)
    (hm : m ∈ n.nodes) : m.span.IsInside (.ofText offset text) := by
  obtain ⟨depth, hdepth⟩ := Node.exists_depth_of_mem_nodes hm
  obtain ⟨left, content, -, hdescent⟩ := Node.exists_descent h hdepth
  rw [Node.span_of_read hdescent.read]
  exact hdescent.piece.isInside

/-- What is below a node starts behind the start of the node. -/
theorem Node.start_lt_of_mem_child (h : (Node.read limit levels offset text).value = some n)
    {child : Node} (hchild : .expr child ∈ n.args) (hm : m ∈ child.nodes) :
    n.span.start < m.span.start := by
  cases levels with
  | zero => exact absurd h (by simp [Node.read_zero])
  | succ levels =>
    obtain ⟨t, ht, content, -, hvalue, -⟩ := Node.exists_token_of_child h hchild
    obtain ⟨before, -, -, hstart⟩ := Token.hasPiece_of_mem_split (List.mem_of_mem_tail ht)
    have hinside := (Node.isInside_of_mem_nodes hvalue hm).1
    rw [Node.span_of_read h]
    simp only [Span.ofText] at hinside ⊢
    omega

/-- At the span of the root there is the report on the root and no other one. -/
theorem Registry.arityMismatches_root (r : Registry)
    (h : (Node.read limit levels offset text).value = some n) :
    ((r.render n).reports.filter Report.isArityMismatch).filter
        (fun report => report.span = n.span) =
      r.arityReports n := by
  rw [Registry.arityMismatches_render, List.filter_append, List.filter_eq_self.2,
    List.filter_eq_nil_iff.2, List.append_nil]
  · intro report hreport
    obtain ⟨child, hchild, hmem⟩ := Registry.exists_of_mem_arityReportsBelow hreport
    obtain ⟨m, hm, hbelow⟩ := Registry.exists_of_mem_arityMismatches hmem
    obtain ⟨-, c, -, -, rfl⟩ := Registry.mem_arityReports.1 hbelow
    have hlt := Node.start_lt_of_mem_child h hchild hm
    have hne : m.span ≠ n.span := fun heq => by rw [heq] at hlt; omega
    simpa using hne
  · intro report hreport
    obtain ⟨-, c, -, -, rfl⟩ := Registry.mem_arityReports.1 hreport
    simp

end Reading

/-! ### Compiling -/

theorem arityMismatches_of_parse {reports : List Report}
    (h : ∀ r ∈ reports, r.fault.phase = .parse) : reports.filter Report.isArityMismatch = [] := by
  refine List.filter_eq_nil_iff.2 fun r hr => ?_
  have hphase := h r hr
  rw [Report.isArityMismatch]
  cases hfault : r.fault with
  | arityMismatch command expected actual => simp [hfault, Fault.phase] at hphase
  | _ => exact Bool.false_ne_true

namespace Compiler

variable (c : Compiler)

theorem arityMismatches_compileGroup (g : Group) :
    (c.compileGroup g).reports.filter Report.isArityMismatch =
      (c.readGroup g).value.elim [] fun n =>
        (c.registry.render n).reports.filter Report.isArityMismatch := by
  rw [reports_compileGroup, List.filter_append,
    arityMismatches_of_parse fun r => c.phase_of_mem_readGroup]
  cases (c.readGroup g).value <;> rfl

theorem arityMismatches_fragments (source : Text) :
    (c.fragments source).reports.filter Report.isArityMismatch =
      (Group.find source).value.flatMap fun g =>
        (c.compileGroup g).reports.filter Report.isArityMismatch := by
  rw [reports_fragments, groupReports, List.filter_append,
    arityMismatches_of_parse fun r => Group.phase_of_mem_find, List.filter_flatMap]
  rfl

/-- A report on a number of arguments is on a node of a group. -/
theorem exists_of_mem_compileGroup {g : Group} {report : Report}
    (h : report ∈ (c.compileGroup g).reports.filter Report.isArityMismatch) :
    ∃ n, (c.readGroup g).value = some n ∧ ∃ m ∈ n.nodes, report ∈ c.registry.arityReports m := by
  rw [arityMismatches_compileGroup] at h
  cases hvalue : (c.readGroup g).value with
  | none => simp [hvalue] at h
  | some n =>
    rw [hvalue] at h
    exact ⟨n, rfl, Registry.exists_of_mem_arityMismatches h⟩

theorem isInside_of_mem_compileGroup {g : Group} {report : Report}
    (h : report ∈ (c.compileGroup g).reports.filter Report.isArityMismatch) :
    report.span.IsInside g.contentSpan := by
  obtain ⟨n, hvalue, m, hm, hreport⟩ := c.exists_of_mem_compileGroup h
  obtain ⟨-, entry, -, -, rfl⟩ := Registry.mem_arityReports.1 hreport
  exact Node.isInside_of_mem_nodes hvalue hm

/-- Among the reports on numbers of arguments, those at the span of a group are those on its
root. -/
theorem arityMismatches_at_group {source : Text} {g : Group} {n : Node}
    (hg : g ∈ (Group.find source).value) (hn : (c.readGroup g).value = some n) :
    ((c.fragments source).reports.filter Report.isArityMismatch).filter
        (fun r => r.span = g.contentSpan) =
      c.registry.arityReports n := by
  -- groups in front of this one and behind it do not reach its span
  have hordered := Group.find_ordered source
  obtain ⟨before, after, hsplit⟩ := List.append_of_mem hg
  rw [hsplit, List.pairwise_append, List.pairwise_cons] at hordered
  obtain ⟨-, ⟨hafter, -⟩, hbefore⟩ := hordered
  have hother : ∀ g' ∈ before ++ after,
      ((c.compileGroup g').reports.filter Report.isArityMismatch).filter
          (fun r => r.span = g.contentSpan) =
        [] := by
    intro g' hg'
    refine List.filter_eq_nil_iff.2 fun r hr => ?_
    have hinside := c.isInside_of_mem_compileGroup hr
    rw [decide_eq_true_eq]
    intro hspan
    rw [hspan] at hinside
    obtain ⟨hstart, hle, hstop⟩ := hinside
    rcases List.mem_append.1 hg' with hmem | hmem
    · have hlt := hbefore g' hmem g List.mem_cons_self
      simp only [Group.IsBefore, Group.contentSpan, Span.ofText] at hlt hstart hle hstop
      omega
    · have hlt := hafter g' hmem
      simp only [Group.IsBefore, Group.contentSpan, Span.ofText] at hlt hstart hle hstop
      omega
  rw [arityMismatches_fragments, hsplit, List.filter_flatMap, List.flatMap_append,
    List.flatMap_cons, List.flatMap_eq_nil_iff.2 fun g' h => hother g' (by simp [h]),
    List.flatMap_eq_nil_iff.2 fun g' h => hother g' (by simp [h]), List.nil_append,
    List.append_nil, arityMismatches_compileGroup, hn, Option.elim_some]
  have hroot := c.registry.arityMismatches_root hn
  rwa [Node.span_of_read hn] at hroot

end Compiler

/-- **Numbers of arguments are reported exactly.** Each report on a number of arguments is at the
content of a pair of parentheses: its first token is the command, the number is that of the other
tokens, and it is one that the command does not take. Each group whose root lost no argument, and
has a known command with a number of tokens behind it that the command does not take, has exactly
one such report at its content. -/
theorem arity_reports_exact (c : Compiler) (source : Source) :
    (∀ command expected actual span,
      ⟨.arityMismatch command expected actual, span⟩ ∈ (c.compile source).reports →
        ∃ piece head rest entry, source.content.slice? span = some piece ∧
          (Token.split span.start piece).value = head :: rest ∧ head.text = command ∧
          rest.length = actual ∧ c.registry.get? command = some entry ∧
          entry.arity.text = expected ∧ entry.arity.accepts actual = false) ∧
      ∀ g ∈ (Group.find source.content).value, ∀ n, (c.readGroup g).value = some n →
        n.droppedArgs = false → ∀ head rest entry,
          (Token.split g.contentSpan.start g.content).value = head :: rest →
          c.registry.get? head.text = some entry → entry.arity.accepts rest.length = false →
          ((c.compile source).reports.filter Report.isArityMismatch).filter
              (fun r => r.span = g.contentSpan) =
            [⟨.arityMismatch head.text entry.arity.text rest.length, g.contentSpan⟩] := by
  rw [c.reports_compile_eq]
  constructor
  · intro command expected actual span hreport
    have hmem : ⟨.arityMismatch command expected actual, span⟩ ∈
        (c.fragments source.content).reports.filter Report.isArityMismatch :=
      List.mem_filter.2 ⟨hreport, rfl⟩
    rw [c.arityMismatches_fragments] at hmem
    obtain ⟨g, hg, hgroup⟩ := List.mem_flatMap.1 hmem
    obtain ⟨n, hn, m, hm, harity⟩ := c.exists_of_mem_compileGroup hgroup
    obtain ⟨hwhole, entry, hget, haccepts, heq⟩ := Registry.mem_arityReports.1 harity
    cases heq
    obtain ⟨depth, hdepth⟩ := Node.exists_depth_of_mem_nodes hm
    obtain ⟨left, content, -, hdescent⟩ := Node.exists_descent hn hdepth
    obtain ⟨head, rest, htokens, hcommand, hlength⟩ :=
      Node.length_args_of_read hdescent.read hwhole
    obtain ⟨before, after, htext, hstart⟩ := hdescent.piece
    refine ⟨content, head, rest, entry, ?_, htokens, hcommand.symm, hlength.symm, hget, rfl,
      haccepts⟩
    rw [Node.span_of_read hdescent.read, hstart]
    exact (Group.enclosedAt_of_mem_find hg).slice htext
  · intro g hg n hn hwhole head rest entry htokens hget hrejects
    obtain ⟨head', rest', htokens', hcommand, hlength⟩ := Node.length_args_of_read hn hwhole
    obtain ⟨rfl, rfl⟩ := List.cons.inj (htokens.symm.trans htokens')
    rw [c.arityMismatches_at_group hg hn, Registry.arityReports, hcommand, hget, Option.elim_some,
      hwhole, hlength, Node.span_of_read hn, Command.arityReports, hrejects,
      (Registry.get?_eq_some hget).2]
    rfl

/-- A number that is wrong below a root that lost an argument, and one at a root. -/
theorem arity_reports_exact_dropped :
    (∃ piece head rest entry,
      Text.slice? "é(frac (sqrt) ())(frac a)".toList ⟨9, 13⟩ = some piece ∧
        (Token.split 9 piece).value = head :: rest ∧ head.text = "sqrt".toList ∧
        rest.length = 0 ∧ Registry.standard.get? "sqrt".toList = some entry ∧
        entry.arity.text = "at least 1" ∧ entry.arity.accepts 0 = false) ∧
      ((Compiler.compile {} ⟨"input", "é(frac (sqrt) ())(frac a)".toList⟩).reports.filter
          Report.isArityMismatch).filter
          (fun r => r.span = ⟨19, 25⟩) =
        [⟨.arityMismatch "frac".toList "at least 2" 1, ⟨19, 25⟩⟩] := by
  obtain ⟨hsound, hcomplete⟩ :=
    arity_reports_exact {} ⟨"input", "é(frac (sqrt) ())(frac a)".toList⟩
  have hentry : Registry.standard.get? "frac".toList = Family.arithmeticCommands[4]? := by
    decide +kernel
  refine ⟨hsound "sqrt".toList "at least 1" 0 ⟨9, 13⟩ (by decide +kernel), ?_⟩
  exact hcomplete ⟨18, "frac a".toList⟩ (by decide +kernel)
    ⟨"frac".toList, ⟨19, 23⟩, [.literal "a".toList ⟨24, 25⟩], ⟨19, 25⟩, false⟩ (by rfl) rfl
    ⟨19, "frac".toList⟩ [⟨24, "a".toList⟩] _ (by decide +kernel) hentry (by decide)

end GraphTex
