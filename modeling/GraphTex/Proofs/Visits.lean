import GraphTex.Proofs.Compiling
import GraphTex.Proofs.Linearity
import GraphTex.Proofs.Rendering
import Mathlib.Data.List.Flatten

/-!
# What the renderer comes to

`Registry.visits` lists what the renderer comes to in a tree, in order: the expressions and the
literals that it renders, each at a position of a command. What is reported on a tree is what is
reported on each visit (`reports_renderArg_eq`), so the visits are those of the renderer. They are
some of the arguments in the tree, in their order (`visits_sublist`).

The renderer makes one fragment of an argument and its template writes the fragment. If fragments
were not kept, all work below an argument would be done again for each place that the template has
for it. `Registry.accesses` lists what this comes to. It is the same work, in another order, if all
rules are linear (`accesses_perm`), and so in particular for rules of the catalogue.
-/

namespace GraphTex

/-! ### Arguments at all depths -/

mutual

/-- The argument and all arguments below it, each in front of those below it. -/
def Argument.subtree : Argument → List Argument
  | .literal text span => [.literal text span]
  | .expr node => .expr node :: node.allArgs

/-- The arguments of the node and all arguments below them. -/
def Node.allArgs : Node → List Argument
  | ⟨_, _, args, _, _⟩ => subtreesOf args

/-- All arguments in some arguments. -/
def subtreesOf : List Argument → List Argument
  | [] => []
  | arg :: rest => arg.subtree ++ subtreesOf rest

end

theorem subtreesOf_eq (args : List Argument) :
    subtreesOf args = args.flatMap Argument.subtree := by
  induction args with
  | nil => rw [subtreesOf, List.flatMap_nil]
  | cons arg rest ih => rw [subtreesOf, ih, List.flatMap_cons]

theorem Node.allArgs_eq (n : Node) : n.allArgs = n.args.flatMap Argument.subtree := by
  cases n
  rw [Node.allArgs, subtreesOf_eq]

/-- A rule looks at arguments in their order. -/
theorem Slot.places_sublist (slots : List Slot) (rest : Option Position) (args : List Argument) :
    ((places slots rest args).map Prod.snd).Sublist args := by
  fun_induction places slots rest args with
  | case1 => exact List.Sublist.refl _
  | case2 => exact List.nil_sublist _
  | case3 position arg args ih => exact ih.cons_cons arg
  | case4 slot slots rest arg args ih => exact ih.cons_cons arg

theorem Slot.mem_of_mem_places {slots : List Slot} {rest : Option Position} {args : List Argument}
    {place : Position × Argument} (h : place ∈ places slots rest args) : place.2 ∈ args :=
  (places_sublist slots rest args).subset (List.mem_map_of_mem h)

/-! ### Visits -/

/-- A visit of the renderer: an argument at a position of a command. -/
structure Visit where
  command : Text
  position : Position
  arg : Argument

namespace Registry

variable (r : Registry)

mutual

/-- What the renderer comes to below an expression. -/
def visitsBelow : Node → List Visit
  | ⟨command, _, args, _, _⟩ =>
    match r.get? command with
    | none => []
    | some c => visitsOfArgs command c.rule.slots c.rule.rest args

/-- What the renderer comes to in an argument of the given command, from the argument itself on. -/
def visits (command : Text) (position : Position) : Argument → List Visit
  | .literal text span => [⟨command, position, .literal text span⟩]
  | .expr node => ⟨command, position, .expr node⟩ :: visitsBelow node

/-- What the renderer comes to in arguments at the positions that a rule gives them. -/
def visitsOfArgs (command : Text) : List Slot → Option Position → List Argument → List Visit
  | _, _, [] => []
  | [], none, _ :: _ => []
  | [], some position, arg :: args =>
    visits command position arg ++ visitsOfArgs command [] (some position) args
  | slot :: slots, rest, arg :: args =>
    visits command slot.position arg ++ visitsOfArgs command slots rest args

end

theorem visitsOfArgs_eq (command : Text) (slots : List Slot) (rest : Option Position)
    (args : List Argument) :
    r.visitsOfArgs command slots rest args =
      (Slot.places slots rest args).flatMap fun place => r.visits command place.1 place.2 := by
  fun_induction Slot.places slots rest args with
  | case1 => rw [visitsOfArgs, List.flatMap_nil]
  | case2 => rw [visitsOfArgs, List.flatMap_nil]
  | case3 position arg args ih => rw [visitsOfArgs, ih, List.flatMap_cons]
  | case4 slot slots rest arg args ih => rw [visitsOfArgs, ih, List.flatMap_cons]

theorem visitsBelow_unknown {n : Node} (h : r.get? n.command = none) : r.visitsBelow n = [] := by
  cases n
  rw [visitsBelow, h]

theorem visitsBelow_known {n : Node} {c : Command} (h : r.get? n.command = some c) :
    r.visitsBelow n =
      (c.rule.places n.args).flatMap fun place => r.visits n.command place.1 place.2 := by
  cases n
  rw [visitsBelow, h]
  exact r.visitsOfArgs_eq _ _ _ _

/-- What is reported on an expression itself, before anything below it is rendered. -/
def ownReports (n : Node) : List Report :=
  match r.get? n.command with
  | none => [⟨.unknownCommand n.command, n.commandSpan⟩]
  | some c =>
    (if n.droppedArgs then [] else c.arityReports n.args.length n.span) ++
      c.rule.requirement.elim [] (·.violations n.command n.args)

/-- What is reported on a visit, before anything below it is rendered. -/
def reportsOn (v : Visit) : List Report :=
  match v.arg with
  | .literal text span => (v.position.renderLiteral text span).reports
  | .expr node => v.position.misuse v.command node.span ++ r.ownReports node

/-- Rendering an expression reports on it, and then on the arguments that its rule looks at. -/
theorem reports_render_eq_own (n : Node) :
    (r.render n).reports =
      r.ownReports n ++ (r.get? n.command).elim [] fun c =>
        (c.rule.places n.args).flatMap fun place =>
          (r.renderArg n.command place.1 place.2).reports := by
  rw [ownReports]
  cases hget : r.get? n.command with
  | none => rw [render_unknown hget]; rfl
  | some c => rw [reports_render_known hget, ← List.append_assoc]; rfl

/-- **What rendering reports is what is reported on its visits, one by one.** -/
theorem reports_renderArg_eq (command : Text) (position : Position) (arg : Argument) :
    (r.renderArg command position arg).reports =
      (r.visits command position arg).flatMap r.reportsOn := by
  induction arg using Argument.induction generalizing command position with
  | literal text span =>
    rw [renderArg_literal, visits, List.flatMap_singleton]
    rfl
  | expr n ih =>
    have hbelow : ((r.get? n.command).elim [] fun c =>
        (c.rule.places n.args).flatMap fun place =>
          (r.renderArg n.command place.1 place.2).reports) =
        (r.visitsBelow n).flatMap r.reportsOn := by
      cases hget : r.get? n.command with
      | none => rw [visitsBelow_unknown r hget]; rfl
      | some c =>
        rw [visitsBelow_known r hget, List.flatMap_assoc, Option.elim_some]
        exact List.flatMap_congr fun place hplace =>
          ih place.2 (Slot.mem_of_mem_places hplace) n.command place.1
    rw [renderArg_expr, reports_render_eq_own, hbelow, visits, List.flatMap_cons, reportsOn,
      List.append_assoc]

end Registry

/-- **The visits are some of the arguments in a tree, in their order.** -/
theorem Registry.visits_sublist (r : Registry) (command : Text) (position : Position)
    (arg : Argument) :
    ((r.visits command position arg).map Visit.arg).Sublist arg.subtree := by
  induction arg using Argument.induction generalizing command position with
  | literal text span =>
    rw [visits, Argument.subtree]
    exact List.Sublist.refl _
  | expr n ih =>
    rw [visits, Argument.subtree, List.map_cons, Node.allArgs_eq]
    refine List.Sublist.cons_cons _ ?_
    cases hget : r.get? n.command with
    | none =>
      rw [visitsBelow_unknown r hget]
      exact List.nil_sublist _
    | some c =>
      have hlooked := (Slot.places_sublist c.rule.slots c.rule.rest n.args).flatMap Argument.subtree
      rw [List.flatMap_map] at hlooked
      rw [visitsBelow_known r hget, List.map_flatMap]
      refine (List.Sublist.flatMap_right _ fun place hplace => ?_).trans hlooked
      exact ih place.2 (Slot.mem_of_mem_places hplace) n.command place.1

/-! ### Accesses -/

namespace Registry

variable (r : Registry)

mutual

/-- What is rendered below an expression if every place of the template renders its argument
anew. -/
def accessesBelow : Node → List Visit
  | ⟨command, _, args, _, _⟩ =>
    match r.get? command with
    | none => []
    | some c => c.rule.template.gather (accessesOfArgs command c.rule.slots c.rule.rest args)

/-- What is rendered in an argument of the given command, from the argument itself on. -/
def accesses (command : Text) (position : Position) : Argument → List Visit
  | .literal text span => [⟨command, position, .literal text span⟩]
  | .expr node => ⟨command, position, .expr node⟩ :: accessesBelow node

/-- What is rendered for each fragment of a rule. A fragment that stands in for a missing argument
takes no rendering. -/
def accessesOfArgs (command : Text) :
    List Slot → Option Position → List Argument → List (List Visit)
  | slots, _, [] => slots.map fun _ => []
  | [], none, _ :: _ => []
  | [], some position, arg :: args =>
    accesses command position arg :: accessesOfArgs command [] (some position) args
  | slot :: slots, rest, arg :: args =>
    accesses command slot.position arg :: accessesOfArgs command slots rest args

end

theorem flatten_accessesOfArgs (command : Text) (slots : List Slot) (rest : Option Position)
    (args : List Argument) :
    (r.accessesOfArgs command slots rest args).flatten =
      (Slot.places slots rest args).flatMap fun place => r.accesses command place.1 place.2 := by
  fun_induction Slot.places slots rest args with
  | case1 slots rest => simp [accessesOfArgs]
  | case2 => rw [accessesOfArgs, List.flatMap_nil, List.flatten_nil]
  | case3 position arg args ih =>
    rw [accessesOfArgs, List.flatten_cons, ih, List.flatMap_cons]
  | case4 slot slots rest arg args ih =>
    rw [accessesOfArgs, List.flatten_cons, ih, List.flatMap_cons]

theorem length_accessesOfArgs_none (command : Text) (slots : List Slot) (args : List Argument) :
    (r.accessesOfArgs command slots none args).length = slots.length := by
  induction slots generalizing args with
  | nil => cases args <;> simp [accessesOfArgs]
  | cons slot slots ih =>
    cases args with
    | nil => simp [accessesOfArgs]
    | cons arg args => rw [accessesOfArgs, List.length_cons, ih, List.length_cons]

theorem accessesBelow_unknown {n : Node} (h : r.get? n.command = none) :
    r.accessesBelow n = [] := by
  cases n
  rw [accessesBelow, h]

theorem accessesBelow_known {n : Node} {c : Command} (h : r.get? n.command = some c) :
    r.accessesBelow n =
      c.rule.template.gather (r.accessesOfArgs n.command c.rule.slots c.rule.rest n.args) := by
  cases n
  rw [accessesBelow, h]

/-- **Linear rules render everything once**, also if no fragment is kept. -/
theorem accesses_perm (hlinear : ∀ c ∈ r.commands, c.rule.isLinear = true) (command : Text)
    (position : Position) (arg : Argument) :
    (r.accesses command position arg).Perm (r.visits command position arg) := by
  induction arg using Argument.induction generalizing command position with
  | literal text span => rw [accesses, visits]
  | expr n ih =>
    rw [accesses, visits]
    refine List.Perm.cons _ ?_
    cases hget : r.get? n.command with
    | none => rw [accessesBelow_unknown r hget, visitsBelow_unknown r hget]
    | some c =>
      have hgather : (r.accessesBelow n).Perm
          (r.accessesOfArgs n.command c.rule.slots c.rule.rest n.args).flatten := by
        rw [accessesBelow_known r hget]
        refine Rule.gather_perm (hlinear c (get?_eq_some hget).1) fun hrest => ?_
        rw [hrest, length_accessesOfArgs_none]
      rw [flatten_accessesOfArgs] at hgather
      rw [visitsBelow_known r hget]
      refine hgather.trans (List.Perm.flatMap_left _ fun place hplace => ?_)
      exact ih place.2 (Slot.mem_of_mem_places hplace) n.command place.1

end Registry

end GraphTex
