import GraphTex.Proofs.WellFormed

/-!
# What is checked

Rendering finds the faults of a tree, and a command renders only the arguments it demands something
of. A constant demands nothing of any argument, and a command with a fixed form nothing of further
arguments than it has places for. Such arguments are ignored: whatever stands there, nothing is
reported on it (`render_set_of_ignored`). All other nodes of a tree are checked, and a command among
them that is not registered leaves the source without output (`output_none_of_unregistered`).
-/

namespace GraphTex

/-- A command ignores the argument with an index, out of the given number: it is registered, takes
that many arguments, and demands nothing of this one. -/
def ignoresAt (command : Text) (count index : Nat) : Bool :=
  (Registry.standard.get? command).any fun c =>
    c.arity.accepts count && (demands command c.arity.minimum).on index == .ignored

mutual

/-- The node and all nodes below it, but none inside an argument that is ignored. -/
def Node.checked : Node → List Node
  | ⟨command, commandSpan, args, span, droppedArgs⟩ =>
    ⟨command, commandSpan, args, span, droppedArgs⟩ ::
      checkedOfArgs (ignoresAt command args.length) 0 args

/-- The checked nodes of an argument that is not ignored. -/
def Argument.checked : Argument → List Node
  | .literal _ _ => []
  | .expr node => node.checked

/-- The checked nodes of arguments, of which the first has the given index. -/
def checkedOfArgs (ignores : Nat → Bool) (index : Nat) : List Argument → List Node
  | [] => []
  | arg :: rest =>
    (if ignores index then [] else arg.checked) ++ checkedOfArgs ignores (index + 1) rest

end

theorem mem_checkedOfArgs {ignores : Nat → Bool} {index : Nat} {args : List Argument} {m : Node} :
    m ∈ checkedOfArgs ignores index args ↔
      ∃ i arg, args[i]? = some arg ∧ ignores (index + i) = false ∧ m ∈ arg.checked := by
  induction args generalizing index with
  | nil => simp [checkedOfArgs]
  | cons arg rest ih =>
    rw [checkedOfArgs, List.mem_append, ih]
    constructor
    · rintro (h | ⟨i, arg', harg, hlooked, hm⟩)
      · split_ifs at h with hignored
        · simp at h
        · exact ⟨0, arg, rfl, by simpa using hignored, h⟩
      · exact ⟨i + 1, arg', harg, by rwa [← Nat.add_assoc, Nat.add_right_comm], hm⟩
    · rintro ⟨i, arg', harg, hlooked, hm⟩
      cases i with
      | zero =>
        obtain rfl : arg = arg' := by simpa using harg
        left
        rwa [if_neg (by simpa using hlooked)]
      | succ i => exact .inr ⟨i, arg', harg, by rwa [Nat.add_right_comm, Nat.add_assoc], hm⟩

/-- A checked node is the root or a checked node of an expression that is not ignored. -/
theorem Node.mem_checked {n m : Node} :
    m ∈ n.checked ↔ m = n ∨ ∃ i child, n.args[i]? = some (.expr child) ∧
      ignoresAt n.command n.args.length i = false ∧ m ∈ child.checked := by
  obtain ⟨command, commandSpan, args, span, droppedArgs⟩ := n
  rw [Node.checked, List.mem_cons, mem_checkedOfArgs]
  refine or_congr Iff.rfl ⟨?_, ?_⟩
  · rintro ⟨i, arg, harg, hlooked, hm⟩
    cases arg with
    | literal text span => simp [Argument.checked] at hm
    | expr child =>
      refine ⟨i, child, harg, by simpa using hlooked, ?_⟩
      rwa [Argument.checked] at hm
  · rintro ⟨i, child, harg, hlooked, hm⟩
    refine ⟨i, .expr child, harg, by simpa using hlooked, ?_⟩
    rwa [Argument.checked]

/-! ### Checked nodes -/

theorem Meets.wellFormed {d : Demand} {n : Node} (h : Meets d (.expr n)) (hd : d ≠ .ignored) :
    WellFormed n := by
  cases h with
  | expr h => exact h
  | nonNumber h _ => exact meets_value_expr.1 h
  | params _ h => exact h
  | nested h => exact h
  | ignored => exact absurd rfl hd

/-- A well-formed node has well-formed expressions wherever it does not ignore them. -/
theorem WellFormed.child {n child : Node} {i : Nat} (h : WellFormed n)
    (harg : n.args[i]? = some (.expr child))
    (hlooked : ignoresAt n.command n.args.length i = false) : WellFormed child := by
  cases h with
  | intro hregistered harity hargs =>
    refine (hargs i _ harg).wellFormed ?_
    intro hignored
    simp [ignoresAt, hregistered, harity, hignored] at hlooked

/-- **All checked commands of a well-formed node are registered.** -/
theorem WellFormed.registered_of_checked {n m : Node} (h : WellFormed n) (hm : m ∈ n.checked) :
    (Registry.standard.get? m.command).isSome = true := by
  induction n using Node.induction with
  | node n ih =>
    rcases Node.mem_checked.1 hm with rfl | ⟨i, child, harg, hlooked, hm⟩
    · cases h with
      | intro hregistered => rw [hregistered, Option.isSome_some]
    · exact ih child (List.mem_of_getElem? harg) (h.child harg hlooked) hm

/-! ### Ignored arguments -/

theorem Rule.demandAt_ne_ignored (rule : Rule) (index : Nat) (position : Position) :
    rule.demandAt index position ≠ .ignored := by
  cases position with
  | value =>
    cases hreq : rule.requirement with
    | none => simp [Rule.demandAt, hreq, Position.demand]
    | some req =>
      cases req with
      | noNumbers => simp [Rule.demandAt, hreq]
      | paramsAt i => by_cases hi : index = i <;> simp [Rule.demandAt, hreq, hi]
  | name role => simp [Rule.demandAt, Position.demand]
  | verbatim => simp [Rule.demandAt, Position.demand]

/-- A rule does not look at an argument of which it demands nothing. -/
theorem Rule.positionAt_of_ignored {rule : Rule} (hcoherent : rule.isCoherent = true) {index : Nat}
    (h : rule.demands.on index = .ignored) : rule.positionAt index = none := by
  rw [Rule.demands_on hcoherent] at h
  cases hposition : rule.positionAt index with
  | none => rfl
  | some position =>
    rw [hposition] at h
    exact absurd h (rule.demandAt_ne_ignored index position)

theorem Registry.renderArgs_set {r : Registry} {command : Text} {slots : List Slot}
    {rest : Option Position} {args : List Argument} {i : Nat}
    (h : Slot.positionAt slots rest i = none) (arg : Argument) :
    r.renderArgs command slots rest (args.set i arg) = r.renderArgs command slots rest args := by
  fun_induction Slot.places slots rest args generalizing i with
  | case1 slots rest => rw [List.set_nil]
  | case2 first args => cases i <;> simp [Registry.renderArgs]
  | case3 position first args ih => simp [Slot.positionAt] at h
  | case4 slot slots rest first args ih =>
    cases i with
    | zero => simp [Slot.positionAt] at h
    | succ i =>
      have hlater := ih (i := i) (by simpa [Slot.positionAt] using h)
      rw [List.set_cons_succ, Registry.renderArgs, Registry.renderArgs, hlater]

theorem Rule.violations_set {rule : Rule} (hcoherent : rule.isCoherent = true) {i : Nat}
    (h : rule.positionAt i = none) (command : Text) (args : List Argument) (arg : Argument) :
    rule.requirement.elim [] (·.violations command (args.set i arg)) =
      rule.requirement.elim [] (·.violations command args) := by
  cases hreq : rule.requirement with
  | none => rfl
  | some req =>
    cases req with
    | noNumbers =>
      rw [Rule.positionAt_of_noNumbers hcoherent hreq] at h
      exact absurd h (by simp)
    | paramsAt j =>
      have hne : i ≠ j := by
        rintro rfl
        rw [Rule.positionAt_of_paramsAt hcoherent hreq] at h
        exact absurd h (by simp)
      simp only [Option.elim_some, Requirement.violations, List.getElem?_set_ne hne]

/-- **An ignored argument makes no difference.** Any other argument in its place leaves what is
written and what is reported as it is. -/
theorem render_set_of_ignored {n : Node} {i : Nat}
    (h : ignoresAt n.command n.args.length i = true) (arg : Argument) :
    Registry.standard.render { n with args := n.args.set i arg } = Registry.standard.render n := by
  rw [ignoresAt, Option.any_eq_true] at h
  obtain ⟨c, hget, h⟩ := h
  rw [Bool.and_eq_true, beq_iff_eq] at h
  obtain ⟨hmem, hname⟩ := Registry.get?_eq_some hget
  obtain ⟨hcoherent, hdemands⟩ := standard_demands c hmem
  rw [← hname, ← hdemands] at h
  have hposition := Rule.positionAt_of_ignored hcoherent h.2
  have hget' : Registry.standard.get? { n with args := n.args.set i arg }.command = some c := hget
  rw [Registry.render_known hget', Registry.render_known hget]
  simp only [List.length_set, Rule.violations_set hcoherent hposition,
    Registry.renderArgs_set hposition]

/-! ### Compiling -/

/-- **What is not ignored is checked.** With the commands of the catalogue, a source has diagnostics
and no output if some checked node at any depth of its trees has a command that is not registered.
Nodes that are not checked are inside ignored arguments, which make no difference at all. -/
theorem output_none_of_unregistered (limit : Nat) (source : Source) :
    (∀ n ∈ (Compiler.parse { maxDepth := limit } source.content).value, ∀ m ∈ n.checked,
      Registry.standard.get? m.command = none →
        (Compiler.compile { maxDepth := limit } source).diagnostics ≠ [] ∧
          (Compiler.compile { maxDepth := limit } source).output = none) ∧
    ∀ (n : Node) (i : Nat) (arg : Argument), ignoresAt n.command n.args.length i = true →
      Registry.standard.render { n with args := n.args.set i arg } =
        Registry.standard.render n := by
  refine ⟨fun n hn m hm hunknown => ?_, fun n i arg h => render_set_of_ignored h arg⟩
  rw [← Compiler.output_eq_none_iff, and_self]
  by_contra houtput
  obtain ⟨hparse, hrender⟩ := (Compiler.isSome_output_iff _ source).1
    (Option.isSome_iff_ne_none.2 houtput)
  have hwhole := droppedArgs_of_parse hparse n hn
  have hregistered := ((reports_render_iff n hwhole).1 (hrender n hn)).registered_of_checked hm
  rw [hunknown] at hregistered
  exact absurd hregistered (by simp)

/-- Below two commands that look at it, a command that is not registered. -/
theorem output_none_below_root :
    (∃ n ∈ (Compiler.parse { maxDepth := 3 } "(add 1 (sqrt (nope (pi)) 2))".toList).value,
      ∃ m ∈ n.checked, Registry.standard.get? m.command = none) ∧
    (Compiler.compile { maxDepth := 3 } ⟨"input", "(add 1 (sqrt (nope (pi)) 2))".toList⟩).output =
      none := by
  obtain ⟨n, hn, m, hm, hunknown⟩ :
      ∃ n ∈ (Compiler.parse { maxDepth := 3 } "(add 1 (sqrt (nope (pi)) 2))".toList).value,
        ∃ m ∈ n.checked, Registry.standard.get? m.command = none := by decide +kernel
  have hchecked := (output_none_of_unregistered 3
    ⟨"input", "(add 1 (sqrt (nope (pi)) 2))".toList⟩).1 n hn m hm hunknown
  exact ⟨⟨n, hn, m, hm, hunknown⟩, hchecked.2⟩

/-- A constant has an argument whose command is not registered, and the source has an output. -/
theorem output_of_constant_with_argument :
    (∃ n ∈ (Compiler.parse {} "(pi (nope))".toList).value, ∃ m ∈ n.nodes,
      Registry.standard.get? m.command = none) ∧
    (Compiler.compile {} ⟨"input", "(pi (nope))".toList⟩).diagnostics = [] ∧
    (Compiler.compile {} ⟨"input", "(pi (nope))".toList⟩).output = some "\\pi\n".toList := by
  refine ⟨?_, ?_, ?_⟩ <;> decide +kernel

end GraphTex
