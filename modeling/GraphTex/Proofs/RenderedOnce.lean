import GraphTex.Proofs.Accounting
import GraphTex.Proofs.Phases
import GraphTex.Proofs.Visits
import Mathlib.Data.List.Pairwise

/-!
# Nothing is rendered twice

The parts of a tree stand in the source one behind the other, the arguments of a node inside it and
behind its command (`Node.Spaced`). So all expressions and literals of a source start at different
places, from left to right (`Argument.subtree_increasing`), and as rendering visits some of them in
this order, it visits each at most once. What is reported in an argument is inside it, and what is
reported on a node by the arguments it has is not reported on these again. So no two reports of the
rendering phase are of the same kind and at the same span (`rendered_once`). The share of the rules
is that their templates have one place for each argument, so that nothing would be rendered twice if
every place rendered its argument anew.
-/

namespace GraphTex

/-! ### Trees in the source -/

/-- The command and the arguments are inside the node. The arguments start behind the start of the
node and do not touch each other. -/
structure Node.Spaced (n : Node) : Prop where
  command : n.commandSpan.IsInside n.span
  args : ∀ arg ∈ n.args, n.span.start < arg.span.start ∧ arg.span.IsInside n.span
  ordered : n.args.Pairwise fun a b => a.span.stop < b.span.start

/-- Every node of the argument is spaced. -/
def Argument.Spaced (arg : Argument) : Prop := ∀ m ∈ arg.nodes, m.Spaced

theorem Argument.outerSpan_le (arg : Argument) :
    arg.outerSpan.start ≤ arg.span.start ∧ arg.span.stop ≤ arg.outerSpan.stop := by
  cases arg with
  | literal text span => exact ⟨Nat.le_refl _, Nat.le_refl _⟩
  | expr n => exact ⟨Nat.sub_le _ _, Nat.le_succ _⟩

theorem Argument.spaced_literal (text : Text) (span : Span) :
    (Argument.literal text span).Spaced := by
  simp [Argument.Spaced, Argument.nodes]

/-- A tree is spaced exactly if its root and all arguments of the root are. -/
theorem Argument.spaced_expr_iff {n : Node} :
    (Argument.expr n).Spaced ↔ n.Spaced ∧ ∀ arg ∈ n.args, arg.Spaced := by
  obtain ⟨command, commandSpan, args, span, droppedArgs⟩ := n
  simp only [Argument.Spaced, Argument.nodes, Node.nodes, nodesOfArgs_eq, List.forall_mem_cons,
    List.mem_flatMap, forall_exists_index, and_imp]
  exact and_congr_right fun _ =>
    ⟨fun h arg harg m hm => h m arg harg hm, fun h m arg harg hm => h arg harg m hm⟩

theorem Node.Faithful.start_le_stop {source : Text} {n : Node} (h : n.Faithful source) :
    n.span.start ≤ n.span.stop := by
  obtain ⟨hstart, hlt, hstop⟩ := h.inside n.commandSpan List.mem_cons_self
  omega

/-- The parts of a faithful node are spaced, and the span of an argument is inside its part. -/
theorem Node.Faithful.spaced {source : Text} {n : Node} (h : n.Faithful source)
    (hchildren : ∀ child, .expr child ∈ n.args → child.span.start ≤ child.span.stop) :
    n.Spaced := by
  have hordered := h.ordered
  rw [Node.parts, List.pairwise_cons, List.pairwise_map] at hordered
  obtain ⟨hbehind, hapart⟩ := hordered
  obtain ⟨hstart, hlt, hstop⟩ := h.inside n.commandSpan List.mem_cons_self
  refine ⟨⟨hstart, Nat.le_of_lt hlt, hstop⟩, fun arg harg => ?_, hapart.imp fun {a b} hab => ?_⟩
  · have hpart : arg.outerSpan ∈ n.args.map Argument.outerSpan := List.mem_map_of_mem harg
    have hfirst := hbehind _ hpart
    have hinside := h.inside _ (List.mem_cons_of_mem _ hpart)
    have hle := arg.outerSpan_le
    have hnonempty : arg.span.start ≤ arg.span.stop := by
      cases arg with
      | literal text span => exact Nat.le_of_lt hinside.2.1
      | expr child => exact hchildren child harg
    refine ⟨?_, ?_, hnonempty, ?_⟩ <;> omega
  · have ha := a.outerSpan_le
    have hb := b.outerSpan_le
    omega

theorem Node.Spaced.isInside_self {n : Node} (h : n.Spaced) {arg : Argument} (harg : arg ∈ n.args) :
    arg.span.IsInside arg.span :=
  ⟨Nat.le_refl _, (h.args arg harg).2.2.1, Nat.le_refl _⟩

/-- Two arguments of a spaced node are the same, or one ends in front of the other. -/
theorem Node.Spaced.apart {n : Node} (h : n.Spaced) {a b : Argument} (ha : a ∈ n.args)
    (hb : b ∈ n.args) :
    a = b ∨ a.span.stop < b.span.start ∨ b.span.stop < a.span.start := by
  refine List.Pairwise.forall_of_forall_of_flip
    (R := fun a b => a = b ∨ a.span.stop < b.span.start ∨ b.span.stop < a.span.start)
    (fun a _ => .inl rfl) ?_ ?_ ha hb
  · exact h.ordered.imp fun hlt => .inr (.inl hlt)
  · exact h.ordered.imp fun hlt => .inr (.inr hlt)

/-- A tree that is faithful to a source is spaced. -/
theorem Argument.spaced_of_faithful (source : Text) {arg : Argument}
    (h : ∀ m ∈ arg.nodes, m.Faithful source) : arg.Spaced := by
  induction arg using Argument.induction with
  | literal text span => exact Argument.spaced_literal text span
  | expr n ih =>
    rw [Argument.nodes] at h
    have hbelow : ∀ arg ∈ n.args, ∀ m ∈ arg.nodes, m.Faithful source := by
      intro arg harg m hm
      cases arg with
      | literal text span => simp [Argument.nodes] at hm
      | expr child =>
        rw [Argument.nodes] at hm
        exact h m (Node.mem_nodes.2 (.inr ⟨child, harg, hm⟩))
    have hroot := h n (Node.mem_nodes.2 (.inl rfl))
    refine Argument.spaced_expr_iff.2 ⟨hroot.spaced fun child hchild => ?_, fun arg harg => ?_⟩
    · refine (hbelow _ hchild child ?_).start_le_stop
      rw [Argument.nodes]
      exact Node.mem_nodes.2 (.inl rfl)
    · exact ih arg harg (hbelow arg harg)

/-- All arguments in an argument are inside it. -/
theorem Argument.isInside_of_mem_subtree {arg a : Argument} (h : arg.Spaced) {outer : Span}
    (houter : arg.span.IsInside outer) (ha : a ∈ arg.subtree) : a.span.IsInside outer := by
  induction arg using Argument.induction generalizing outer with
  | literal text span =>
    rw [Argument.subtree] at ha
    rw [List.mem_singleton.1 ha]
    exact houter
  | expr n ih =>
    obtain ⟨hroot, hargs⟩ := Argument.spaced_expr_iff.1 h
    rw [Argument.subtree, Node.allArgs_eq] at ha
    rcases List.mem_cons.1 ha with rfl | ha
    · exact houter
    · obtain ⟨arg, harg, hmem⟩ := List.mem_flatMap.1 ha
      exact ih arg harg (hargs arg harg) ((hroot.args arg harg).2.trans houter) hmem

/-- **All arguments in a tree start behind each other**, each in front of those below it. -/
theorem Argument.subtree_increasing {arg : Argument} (h : arg.Spaced) :
    arg.subtree.Pairwise fun a b => a.span.start < b.span.start := by
  induction arg using Argument.induction with
  | literal text span =>
    rw [Argument.subtree]
    exact List.pairwise_singleton _ _
  | expr n ih =>
    obtain ⟨hroot, hargs⟩ := Argument.spaced_expr_iff.1 h
    have hinside : ∀ arg ∈ n.args, ∀ a ∈ arg.subtree, a.span.IsInside arg.span := by
      intro arg harg a ha
      exact Argument.isInside_of_mem_subtree (hargs arg harg) (hroot.isInside_self harg) ha
    rw [Argument.subtree, Node.allArgs_eq, List.pairwise_cons]
    refine ⟨fun a ha => ?_, List.pairwise_flatMap.2 ⟨?_, ?_⟩⟩
    · obtain ⟨arg, harg, hmem⟩ := List.mem_flatMap.1 ha
      exact Nat.lt_of_lt_of_le (hroot.args arg harg).1 (hinside arg harg a hmem).1
    · exact fun arg harg => ih arg harg (hargs arg harg)
    · refine hroot.ordered.imp_of_mem fun {arg arg'} harg harg' hapart a ha b hb => ?_
      obtain ⟨-, hle, hstop⟩ := hinside arg harg a ha
      obtain ⟨hstart, -, -⟩ := hinside arg' harg' b hb
      omega

/-! ### Reports in the source -/

/-- The reports are of different kinds or at different spans. -/
def Report.Differs (a b : Report) : Prop := a.fault.slug = b.fault.slug → a.span ≠ b.span

/-- The arguments that do not meet a requirement are reported at different spans. -/
theorem Requirement.violations_pairwise (req : Requirement) {n : Node} (h : n.Spaced)
    (command : Text) : (req.violations command n.args).Pairwise Report.Differs := by
  have hspans : n.args.Pairwise fun a b => a.span ≠ b.span := by
    refine h.ordered.imp_of_mem fun {a b} ha _ hlt heq => ?_
    have hle := (h.args a ha).2.2.1
    rw [heq] at hle hlt
    omega
  cases req with
  | noNumbers =>
    refine List.pairwise_map.2 ((hspans.filter _).imp fun {a b} hne => ?_)
    exact fun _ => hne
  | paramsAt i =>
    refine List.pairwise_map.2 (List.Pairwise.filter _ ?_)
    cases n.args[i]? with
    | none => exact .nil
    | some arg => exact List.pairwise_singleton _ _

namespace Registry

variable (r : Registry) {n : Node}

/-- What is reported on a node itself is on its command, on the whole of it, or on an argument. -/
theorem mem_ownReports {report : Report} (h : report ∈ r.ownReports n) :
    r.get? n.command = none ∧ report.fault.slug = "unknown_command" ∧
        report.span = n.commandSpan ∨
      report.fault.slug = "arity_mismatch" ∧ report.span = n.span ∨
      (report.fault.slug = "unexpected_number" ∨ report.fault.slug = "expected_params") ∧
        ∃ arg ∈ n.args, report.span = arg.span := by
  rw [ownReports] at h
  cases hget : r.get? n.command with
  | none =>
    rw [hget] at h
    rw [List.mem_singleton.1 h]
    exact .inl ⟨rfl, rfl, rfl⟩
  | some c =>
    rw [hget] at h
    rcases List.mem_append.1 h with harity | hrequired
    · rw [Command.mem_arityReports harity]
      exact .inr (.inl ⟨rfl, rfl⟩)
    · cases hreq : c.rule.requirement with
      | none => simp [hreq] at hrequired
      | some req =>
        rw [hreq] at hrequired
        obtain ⟨arg, harg, ⟨-, rfl⟩ | ⟨-, rfl⟩⟩ := Requirement.mem_violations hrequired
        · exact .inr (.inr ⟨.inl rfl, arg, harg, rfl⟩)
        · exact .inr (.inr ⟨.inr rfl, arg, harg, rfl⟩)

/-- What is reported below a node is reported on one of its arguments. -/
theorem mem_render_cases {report : Report} (h : report ∈ (r.render n).reports) :
    report ∈ r.ownReports n ∨
      ∃ c, r.get? n.command = some c ∧ ∃ place ∈ c.rule.places n.args, place.2 ∈ n.args ∧
        report ∈ (r.renderArg n.command place.1 place.2).reports := by
  rw [reports_render_eq_own, List.mem_append] at h
  refine h.imp id fun hbelow => ?_
  cases hget : r.get? n.command with
  | none => simp [hget] at hbelow
  | some c =>
    rw [hget, Option.elim_some, List.mem_flatMap] at hbelow
    obtain ⟨place, hplace, hmem⟩ := hbelow
    exact ⟨c, rfl, place, hplace, Slot.mem_of_mem_places hplace, hmem⟩

/-- **What is reported on an argument is inside it.** -/
theorem isInside_of_mem_renderArg {command : Text} {position : Position} {arg : Argument}
    (h : arg.Spaced) {outer : Span} (houter : arg.span.IsInside outer) {report : Report}
    (hreport : report ∈ (r.renderArg command position arg).reports) :
    report.span.IsInside outer := by
  induction arg using Argument.induction generalizing command position outer with
  | literal text span =>
    rw [renderArg_literal] at hreport
    rw [(Position.mem_renderLiteral hreport).1]
    exact houter
  | expr n ih =>
    obtain ⟨hroot, hargs⟩ := Argument.spaced_expr_iff.1 h
    rw [renderArg_expr, List.mem_append] at hreport
    rcases hreport with hmisuse | hrender
    · obtain ⟨role, -, rfl⟩ := Position.mem_misuse hmisuse
      exact houter
    · rcases r.mem_render_cases hrender with hown | ⟨c, -, place, -, harg, hmem⟩
      · rcases r.mem_ownReports hown with ⟨-, -, hspan⟩ | ⟨-, hspan⟩ | ⟨-, arg, harg, hspan⟩
        · rw [hspan]
          exact hroot.command.trans houter
        · rw [hspan]
          exact houter
        · rw [hspan]
          exact (hroot.args arg harg).2.trans houter
      · exact ih place.2 harg (hargs place.2 harg) ((hroot.args place.2 harg).2.trans houter) hmem

/-- At the start of a node, only its number of arguments and its command are reported on. -/
theorem lt_of_mem_render (h : (Argument.expr n).Spaced) {report : Report}
    (hreport : report ∈ (r.render n).reports) :
    n.span.start < report.span.start ∨ report.fault.slug = "arity_mismatch" ∨
      report.fault.slug = "unknown_command" := by
  obtain ⟨hroot, hargs⟩ := Argument.spaced_expr_iff.1 h
  rcases r.mem_render_cases hreport with hown | ⟨c, -, place, -, harg, hmem⟩
  · rcases r.mem_ownReports hown with ⟨-, hslug, -⟩ | ⟨hslug, -⟩ | ⟨-, arg, harg, hspan⟩
    · exact .inr (.inr hslug)
    · exact .inr (.inl hslug)
    · rw [hspan]
      exact .inl (hroot.args arg harg).1
  · have hinside :=
      r.isInside_of_mem_renderArg (hargs place.2 harg) (hroot.isInside_self harg) hmem
    exact .inl (Nat.lt_of_lt_of_le (hroot.args place.2 harg).1 hinside.1)

/-- What a rule requires of an argument is not reported at the argument by rendering it. -/
theorem lt_of_mem_renderArg {command : Text} {position : Position} {arg : Argument}
    (h : arg.Spaced) {report : Report}
    (hreport : report ∈ (r.renderArg command position arg).reports)
    (hslug : report.fault.slug = "unexpected_number" ∨ report.fault.slug = "expected_params") :
    arg.span.start < report.span.start := by
  cases arg with
  | literal text span =>
    rw [renderArg_literal] at hreport
    rcases (Position.mem_renderLiteral hreport).2 with ⟨-, hfault⟩ | hfault <;>
      simp [hfault, Fault.slug] at hslug
  | expr n =>
    rw [renderArg_expr, List.mem_append] at hreport
    rcases hreport with hmisuse | hrender
    · obtain ⟨role, -, rfl⟩ := Position.mem_misuse hmisuse
      simp [Fault.slug] at hslug
    · refine (r.lt_of_mem_render h hrender).resolve_right ?_
      rcases hslug with hslug | hslug <;> simp [hslug]

/-- The reports on a node itself differ. -/
theorem ownReports_pairwise (h : n.Spaced) : (r.ownReports n).Pairwise Report.Differs := by
  rw [ownReports]
  cases hget : r.get? n.command with
  | none => exact List.pairwise_singleton _ _
  | some c =>
    refine List.pairwise_append.2 ⟨?_, ?_, fun a ha b hb hslug => ?_⟩
    · rw [Command.arityReports]
      split_ifs
      · exact .nil
      · exact .nil
      · exact List.pairwise_singleton _ _
    · cases c.rule.requirement with
      | none => exact .nil
      | some req => exact req.violations_pairwise h n.command
    · rw [Command.mem_arityReports ha] at hslug
      cases hreq : c.rule.requirement with
      | none => simp [hreq] at hb
      | some req =>
        rw [hreq] at hb
        obtain ⟨arg, -, ⟨-, rfl⟩ | ⟨-, rfl⟩⟩ := Requirement.mem_violations hb <;>
          simp [Fault.slug] at hslug

/-- What is reported on a node itself differs from what is reported on its arguments. -/
theorem ownReports_differ (h : (Argument.expr n).Spaced) {a b : Report} (ha : a ∈ r.ownReports n)
    {c : Command} (hget : r.get? n.command = some c) {place : Position × Argument}
    (harg : place.2 ∈ n.args)
    (hb : b ∈ (r.renderArg n.command place.1 place.2).reports) : a.Differs b := by
  obtain ⟨hroot, hargs⟩ := Argument.spaced_expr_iff.1 h
  have hinside := r.isInside_of_mem_renderArg (hargs _ harg) (hroot.isInside_self harg) hb
  have hbehind := (hroot.args _ harg).1
  intro hslug hspan
  rw [← hspan] at hinside
  rcases r.mem_ownReports ha with ⟨hnone, -, -⟩ | ⟨-, hwhole⟩ | ⟨hkind, arg, hmem, hat⟩
  · simp [hget] at hnone
  · rw [hwhole] at hinside
    have := hinside.1
    omega
  · rw [hslug] at hkind
    have hlt := r.lt_of_mem_renderArg (hargs _ harg) hb hkind
    rw [← hspan, hat] at hlt
    rw [hat] at hinside
    obtain ⟨hstart, hle, hstop⟩ := hinside
    rcases hroot.apart hmem harg with rfl | hapart | hapart <;> omega

/-- The reports on a node differ if those on each of its arguments do. -/
theorem render_pairwise (h : (Argument.expr n).Spaced)
    (hbelow : ∀ arg ∈ n.args, ∀ position,
      (r.renderArg n.command position arg).reports.Pairwise Report.Differs) :
    (r.render n).reports.Pairwise Report.Differs := by
  obtain ⟨hroot, hargs⟩ := Argument.spaced_expr_iff.1 h
  rw [reports_render_eq_own]
  cases hget : r.get? n.command with
  | none =>
    rw [Option.elim_none, List.append_nil]
    exact r.ownReports_pairwise hroot
  | some c =>
    have hmem : ∀ place ∈ c.rule.places n.args, place.2 ∈ n.args :=
      fun _ => Slot.mem_of_mem_places
    have hapart : (c.rule.places n.args).Pairwise fun p q => p.2.span.stop < q.2.span.start :=
      List.pairwise_map.1
        (hroot.ordered.sublist (Slot.places_sublist c.rule.slots c.rule.rest n.args))
    refine List.pairwise_append.2 ⟨r.ownReports_pairwise hroot,
      List.pairwise_flatMap.2 ⟨fun place hplace => ?_, ?_⟩, fun a ha b hb => ?_⟩
    · exact hbelow place.2 (hmem place hplace) place.1
    · -- reports on two arguments are inside them, and the arguments do not touch
      refine hapart.imp_of_mem fun {p q} hp hq hlt a ha b hb _ hspan => ?_
      have hina := r.isInside_of_mem_renderArg (hargs _ (hmem p hp))
        (hroot.isInside_self (hmem p hp)) ha
      have hinb := r.isInside_of_mem_renderArg (hargs _ (hmem q hq))
        (hroot.isInside_self (hmem q hq)) hb
      rw [← hspan] at hinb
      obtain ⟨-, hle, hstop⟩ := hina
      have hstart := hinb.1
      omega
    · obtain ⟨place, hplace, hb⟩ := List.mem_flatMap.1 hb
      exact r.ownReports_differ h ha hget (hmem place hplace) hb

/-- **No two reports on an argument are of the same kind at the same span.** -/
theorem renderArg_pairwise (command : Text) (position : Position) {arg : Argument}
    (h : arg.Spaced) : (r.renderArg command position arg).reports.Pairwise Report.Differs := by
  induction arg using Argument.induction generalizing command position with
  | literal text span =>
    rw [renderArg_literal]
    obtain ⟨written, hnone | ⟨fault, hone, -⟩⟩ := position.renderLiteral_cases text
    · rw [hnone]
      exact .nil
    · rw [hone]
      exact List.pairwise_singleton _ _
  | expr n ih =>
    obtain ⟨-, hargs⟩ := Argument.spaced_expr_iff.1 h
    have hrender := r.render_pairwise h fun arg harg position =>
      ih arg harg n.command position (hargs arg harg)
    rw [renderArg_expr]
    refine List.pairwise_append.2 ⟨?_, hrender, fun a ha b hb hslug hspan => ?_⟩
    · cases position with
      | value => exact .nil
      | name role => exact List.pairwise_singleton _ _
      | verbatim => exact .nil
    · obtain ⟨role, -, rfl⟩ := Position.mem_misuse ha
      change "expected_identifier" = _ at hslug
      rcases r.lt_of_mem_render h hb with hlt | hother | hother
      · rw [← hspan] at hlt
        exact absurd hlt (Nat.lt_irrefl _)
      · simp [hother] at hslug
      · simp [hother] at hslug

end Registry

/-! ### Sources -/

namespace Compiler

variable (c : Compiler)

/-- All expressions and literals in the trees of a source. -/
def places (source : Text) : List Argument :=
  (c.parse source).value.flatMap fun n => (Argument.expr n).subtree

/-- What the renderer comes to in a source. A tree is rendered as a value of no command. -/
def visits (source : Text) : List Visit :=
  (c.parse source).value.flatMap fun n => c.registry.visits [] .value (.expr n)

/-- What is rendered in a source if every place of a template renders its argument anew. -/
def accesses (source : Text) : List Visit :=
  (c.parse source).value.flatMap fun n => c.registry.accesses [] .value (.expr n)

/-- The trees of a source are spaced. -/
theorem spaced_of_mem_parse {source : Text} {n : Node} (h : n ∈ (c.parse source).value) :
    (Argument.expr n).Spaced := by
  rw [value_parse] at h
  obtain ⟨g, hg, hread⟩ := List.mem_filterMap.1 h
  refine Argument.spaced_of_faithful source ?_
  rw [Argument.nodes]
  exact Node.faithful_of_mem_nodes (Group.enclosedAt_of_mem_find hg) hread

/-- The trees of a source stand one behind the other. -/
theorem parse_apart (source : Text) :
    (c.parse source).value.Pairwise fun m n => m.span.stop < n.span.start := by
  rw [value_parse, List.pairwise_filterMap]
  refine (Group.find_ordered source).imp fun {g g'} hlt m hm n hn => ?_
  rw [Node.span_of_read hm, Node.span_of_read hn]
  simp only [Group.IsBefore, Group.contentSpan, Span.ofText] at hlt ⊢
  omega

theorem isInside_self_of_mem_parse {source : Text} {n : Node} (h : n ∈ (c.parse source).value) :
    n.span.IsInside n.span := by
  obtain ⟨hstart, hle, hstop⟩ := (Argument.spaced_expr_iff.1 (c.spaced_of_mem_parse h)).1.command
  refine ⟨Nat.le_refl _, ?_, Nat.le_refl _⟩
  omega

/-- All expressions and literals of a source start behind each other. -/
theorem places_increasing (source : Text) :
    (c.places source).Pairwise fun a b => a.span.start < b.span.start := by
  refine List.pairwise_flatMap.2 ⟨fun n hn => ?_, ?_⟩
  · exact Argument.subtree_increasing (c.spaced_of_mem_parse hn)
  · refine (c.parse_apart source).imp_of_mem fun {m n} hm hn hlt a ha b hb => ?_
    obtain ⟨-, hle, hstop⟩ := Argument.isInside_of_mem_subtree (c.spaced_of_mem_parse hm)
      (c.isInside_self_of_mem_parse hm) ha
    obtain ⟨hstart, -, -⟩ := Argument.isInside_of_mem_subtree (c.spaced_of_mem_parse hn)
      (c.isInside_self_of_mem_parse hn) hb
    omega

theorem reports_render_eq_renderArg (n : Node) :
    (c.registry.render n).reports = (c.registry.renderArg [] .value (.expr n)).reports := by
  rw [Registry.renderArg_expr]
  rfl

/-- The reports of the rendering phase differ. -/
theorem render_reports_pairwise (source : Text) :
    ((c.fragments source).reports.filter (Report.hasPhase .render)).Pairwise Report.Differs := by
  rw [filter_render_fragments]
  refine List.pairwise_flatMap.2 ⟨fun n hn => ?_, ?_⟩
  · rw [reports_render_eq_renderArg]
    exact c.registry.renderArg_pairwise [] .value (c.spaced_of_mem_parse hn)
  · refine (c.parse_apart source).imp_of_mem fun {m n} hm hn hlt a ha b hb _ hspan => ?_
    rw [reports_render_eq_renderArg] at ha hb
    obtain ⟨-, hle, hstop⟩ := c.registry.isInside_of_mem_renderArg (c.spaced_of_mem_parse hm)
      (c.isInside_self_of_mem_parse hm) ha
    obtain ⟨hstart, -, -⟩ := c.registry.isInside_of_mem_renderArg (c.spaced_of_mem_parse hn)
      (c.isInside_self_of_mem_parse hn) hb
    rw [hspan] at hle hstop
    omega

/-- **Nothing is rendered twice.** Whatever the commands and the nesting limit, the expressions and
literals of a source start at different places, and the renderer comes to some of them, from left to
right. The diagnostics of the rendering phase are what is reported on each of these visits, and no
two of them are of the same kind and at the same span. With rules of the catalogue, under any names
and for any numbers of arguments, this does not depend on keeping fragments: to render an argument
anew for each place of it in a template comes to the same visits, in some order. -/
theorem rendered_once (source : Source) :
    (c.places source.content).Pairwise (fun a b => a.span.start < b.span.start) ∧
      ((c.visits source.content).map Visit.arg).Sublist (c.places source.content) ∧
      (c.compile source).reports.filter (Report.hasPhase .render) =
        (c.visits source.content).flatMap c.registry.reportsOn ∧
      (((c.compile source).reports.filter (Report.hasPhase .render)).map
        fun r => (r.fault.slug, r.span)).Nodup ∧
      ((∀ d ∈ c.registry.commands, ∃ e ∈ Registry.standard.commands, d.rule = e.rule) →
        (c.accesses source.content).Perm (c.visits source.content)) := by
  rw [reports_compile_eq]
  refine ⟨c.places_increasing source.content, ?_, ?_, ?_, fun hrules => ?_⟩
  · rw [visits, places, List.map_flatMap]
    exact List.Sublist.flatMap_right _ fun n _ => c.registry.visits_sublist [] .value (.expr n)
  · rw [filter_render_fragments, visits, List.flatMap_assoc]
    refine List.flatMap_congr fun n _ => ?_
    rw [reports_render_eq_renderArg, Registry.reports_renderArg_eq]
  · refine List.pairwise_map.2 ((c.render_reports_pairwise source.content).imp ?_)
    intro a b hdiffers heq
    obtain ⟨hslug, hspan⟩ := Prod.mk.inj heq
    exact hdiffers hslug hspan
  · have hlinear : ∀ d ∈ c.registry.commands, d.rule.isLinear = true := by
      intro d hd
      obtain ⟨e, he, hrule⟩ := hrules d hd
      rw [hrule]
      exact standard_linear e he
    exact List.Perm.flatMap_left _ fun n _ => c.registry.accesses_perm hlinear [] .value (.expr n)

/-- The catalogue under other names, with any number of arguments taken. Roots and logarithms write
their second argument first. -/
theorem rendered_once_in_another_order :
    let c : Compiler :=
      { registry := ⟨Registry.standard.commands.map fun d =>
          { d with name := 'q' :: d.name, arity := .atLeast 0 }⟩ }
    let source : Source := ⟨"input", "(qroot 1x (qlog 2 (pi)))".toList⟩
    ((c.compile source).reports.filter (Report.hasPhase .render)).map
          (fun r => (r.fault.slug, r.span)) =
        [("malformed_identifier", ⟨7, 9⟩), ("unknown_command", ⟨19, 21⟩)] ∧
      (c.visits source.content).flatMap c.registry.reportsOn =
        [⟨.malformedIdentifier "1x".toList, ⟨7, 9⟩⟩, ⟨.unknownCommand "pi".toList, ⟨19, 21⟩⟩] ∧
      ((c.accesses source.content).map fun v => v.arg.span.start) = [1, 11, 19, 16, 7] ∧
      (c.accesses source.content).Perm (c.visits source.content) := by
  intro c source
  have hrules : ∀ d ∈ c.registry.commands, ∃ e ∈ Registry.standard.commands, d.rule = e.rule := by
    decide +kernel
  have hreports : (c.compile source).reports.filter (Report.hasPhase .render) =
      [⟨.malformedIdentifier "1x".toList, ⟨7, 9⟩⟩, ⟨.unknownCommand "pi".toList, ⟨19, 21⟩⟩] := by
    decide +kernel
  obtain ⟨-, -, hvisits, -, hperm⟩ := rendered_once c source
  refine ⟨?_, hvisits.symm.trans hreports, by decide +kernel, hperm hrules⟩
  rw [hreports]
  rfl

end Compiler

end GraphTex
