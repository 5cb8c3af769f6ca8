import GraphTex.Node

/-!
# Expression trees: induction, places and shape

Trees hold their arguments in lists, so an induction over a tree is one over its nodes
(`Node.induction`). The places of a tree are its nodes at all depths (`Node.nodes`). Spans are the
only part of a tree that tells where it stands: `Node.mapSpans` changes all of them at once, and
`Node.eraseSpans` forgets them.
-/

namespace GraphTex

/-! ### Induction -/

mutual

/-- Induction on a tree: a node has a property if all expressions among its arguments have it. -/
theorem Node.induction {motive : Node → Prop}
    (node : ∀ n : Node, (∀ child, Argument.expr child ∈ n.args → motive child) → motive n) :
    ∀ n, motive n
  | ⟨_, _, args, _, _⟩ => node _ (Node.induction_args node args)

theorem Node.induction_args {motive : Node → Prop}
    (node : ∀ n : Node, (∀ child, Argument.expr child ∈ n.args → motive child) → motive n) :
    ∀ args : List Argument, ∀ child, Argument.expr child ∈ args → motive child
  | [], _, h => absurd h List.not_mem_nil
  | .literal _ _ :: rest, child, h =>
    Node.induction_args node rest child (by simpa using h)
  | .expr n :: rest, child, h => by
    rcases List.mem_cons.1 h with heq | hmem
    · cases heq
      exact Node.induction node n
    · exact Node.induction_args node rest child hmem

end

/-- Induction on an argument: an expression has a property if all its arguments have it. -/
theorem Argument.induction {motive : Argument → Prop}
    (literal : ∀ text span, motive (.literal text span))
    (expr : ∀ n : Node, (∀ arg ∈ n.args, motive arg) → motive (.expr n)) (arg : Argument) :
    motive arg := by
  cases arg with
  | literal text span => exact literal text span
  | expr n =>
    induction n using Node.induction with
    | node n ih =>
      refine expr n fun arg harg => ?_
      cases arg with
      | literal text span => exact literal text span
      | expr child => exact ih child harg

/-! ### Places -/

mutual

/-- The node and all nodes below it, each in front of those below it. -/
def Node.nodes : Node → List Node
  | ⟨command, commandSpan, args, span, droppedArgs⟩ =>
    ⟨command, commandSpan, args, span, droppedArgs⟩ :: nodesOfArgs args

/-- All nodes of an argument. -/
def Argument.nodes : Argument → List Node
  | .literal _ _ => []
  | .expr node => node.nodes

/-- All nodes of some arguments. -/
def nodesOfArgs : List Argument → List Node
  | [] => []
  | arg :: rest => arg.nodes ++ nodesOfArgs rest

end

theorem nodesOfArgs_eq (args : List Argument) : nodesOfArgs args = args.flatMap Argument.nodes := by
  induction args with
  | nil => rw [nodesOfArgs, List.flatMap_nil]
  | cons arg rest ih => rw [nodesOfArgs, ih, List.flatMap_cons]

/-- A place of a tree is its root or a place of an expression among its arguments. -/
theorem Node.mem_nodes {n m : Node} :
    m ∈ n.nodes ↔ m = n ∨ ∃ child, Argument.expr child ∈ n.args ∧ m ∈ child.nodes := by
  obtain ⟨command, commandSpan, args, span, droppedArgs⟩ := n
  rw [Node.nodes, List.mem_cons, nodesOfArgs_eq, List.mem_flatMap]
  refine or_congr Iff.rfl ⟨?_, ?_⟩
  · rintro ⟨arg, harg, hm⟩
    cases arg with
    | literal text span => simp [Argument.nodes] at hm
    | expr child => exact ⟨child, harg, by simpa only [Argument.nodes] using hm⟩
  · rintro ⟨child, hchild, hm⟩
    exact ⟨.expr child, hchild, by simpa only [Argument.nodes] using hm⟩

/-! ### Spans -/

mutual

/-- The tree with every span changed. -/
def Node.mapSpans (f : Span → Span) : Node → Node
  | ⟨command, commandSpan, args, span, droppedArgs⟩ =>
    ⟨command, f commandSpan, mapSpansOfArgs f args, f span, droppedArgs⟩

/-- The argument with every span changed. -/
def Argument.mapSpans (f : Span → Span) : Argument → Argument
  | .literal text span => .literal text (f span)
  | .expr node => .expr (node.mapSpans f)

/-- The arguments with every span changed. -/
def mapSpansOfArgs (f : Span → Span) : List Argument → List Argument
  | [] => []
  | arg :: rest => arg.mapSpans f :: mapSpansOfArgs f rest

end

theorem mapSpansOfArgs_eq (f : Span → Span) (args : List Argument) :
    mapSpansOfArgs f args = args.map (Argument.mapSpans f) := by
  induction args with
  | nil => rw [mapSpansOfArgs, List.map_nil]
  | cons arg rest ih => rw [mapSpansOfArgs, ih, List.map_cons]

section mapSpans

variable (f : Span → Span) (n : Node)

theorem Node.mapSpans_eq :
    n.mapSpans f =
      ⟨n.command, f n.commandSpan, n.args.map (Argument.mapSpans f), f n.span, n.droppedArgs⟩ := by
  cases n
  rw [Node.mapSpans, mapSpansOfArgs_eq]

@[simp] theorem Node.command_mapSpans : (n.mapSpans f).command = n.command := by
  rw [Node.mapSpans_eq]

@[simp] theorem Node.span_mapSpans : (n.mapSpans f).span = f n.span := by rw [Node.mapSpans_eq]

@[simp] theorem Argument.mapSpans_literal (text : Text) (span : Span) :
    (Argument.literal text span).mapSpans f = .literal text (f span) := by rw [Argument.mapSpans]

@[simp] theorem Argument.mapSpans_expr :
    (Argument.expr n).mapSpans f = .expr (n.mapSpans f) := by rw [Argument.mapSpans]

@[simp] theorem Argument.span_mapSpans (a : Argument) : (a.mapSpans f).span = f a.span := by
  cases a with
  | literal text span => rw [Argument.mapSpans_literal, Argument.span, Argument.span]
  | expr n => rw [Argument.mapSpans_expr, Argument.span, Argument.span, Node.span_mapSpans]

end mapSpans

/-- The tree without its places: every span is the empty one at zero. -/
def Node.eraseSpans (n : Node) : Node := n.mapSpans fun _ => default

/-- The argument without its places. -/
def Argument.eraseSpans (a : Argument) : Argument := a.mapSpans fun _ => default

end GraphTex
