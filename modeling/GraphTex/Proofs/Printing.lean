import GraphTex.Proofs.Acceptance
import GraphTex.Proofs.Relocation

/-!
# Printing is inverse to parsing

A tree is printed on one line with single blanks. An atom is printed as it was written, with the
blanks inside its parentheses, so the printed text has the derivation of the tree with all other
blanks made tidy (`Form.tidy`, `Form.pretty_tree`). A source that is parsed without report can
therefore be printed and parsed again, which gives the same trees up to spans, and compiling looks
at nothing else (`parse_reprint`).
-/

namespace GraphTex

/-! ### Printing looks at no span -/

theorem prettyArgs_eq (args : List Argument) :
    prettyArgs args = args.flatMap fun arg => ' ' :: arg.pretty := by
  induction args with
  | nil => rw [prettyArgs, List.flatMap_nil]
  | cons arg rest ih => rw [prettyArgs, ih, List.flatMap_cons, List.cons_append]

theorem Node.pretty_eq (n : Node) :
    n.pretty = '(' :: (n.command ++ (n.args.flatMap fun arg => ' ' :: arg.pretty) ++ [')']) := by
  cases n
  rw [Node.pretty, prettyArgs_eq]

theorem Node.pretty_mapSpans (f : Span → Span) (n : Node) : (n.mapSpans f).pretty = n.pretty := by
  induction n using Node.induction with
  | node n ih =>
    have hargs : ∀ arg ∈ n.args, (arg.mapSpans f).pretty = arg.pretty := by
      intro arg harg
      cases arg with
      | literal text span => rw [Argument.mapSpans_literal, Argument.pretty, Argument.pretty]
      | expr child =>
        rw [Argument.mapSpans_expr, Argument.pretty, Argument.pretty]
        exact ih child harg
    have hprinted : (n.args.flatMap fun arg => ' ' :: (arg.mapSpans f).pretty) =
        n.args.flatMap fun arg => ' ' :: arg.pretty :=
      List.flatMap_congr fun arg harg => by rw [hargs arg harg]
    rw [Node.pretty_eq, Node.pretty_eq, Node.mapSpans_eq, List.flatMap_map, hprinted]

namespace Grammar

/-! ### Tidy derivations -/

/-- No blank at all. -/
def Blanks.none : Blanks := ⟨[], fun _ h => absurd h List.not_mem_nil⟩

/-- A single blank. -/
def Blanks.single : Blanks := ⟨[' '], List.forall_mem_singleton.2 (by decide)⟩

theorem Blanks.single_ne_nil : Blanks.single.text ≠ [] := List.cons_ne_nil _ _

mutual

/-- The group with single blanks between its items and no others. -/
def Form.tidy : Form → Form
  | ⟨_, command, items⟩ => ⟨.none, command, items.tidy⟩

/-- The item with tidy groups. An atom stays as it is. -/
def Item.tidy : Item → Item
  | .atom atom => .atom atom
  | .group form => .group form.tidy

/-- The items, each behind a single blank. -/
def Items.tidy : Items → Items
  | .done _ => .done .none
  | .next _ _ item rest => .next .single Blanks.single_ne_nil item.tidy rest.tidy

end

mutual

theorem Form.tree_tidy : ∀ form : Form, form.tidy.tree = form.tree
  | ⟨lead, command, items⟩ => by rw [Form.tidy, Form.tree, Form.tree, items.trees_tidy]

theorem Item.tree_tidy : ∀ item : Item, item.tidy.tree = item.tree
  | .atom atom => by rw [Item.tidy]
  | .group form => by rw [Item.tidy, Item.tree, Item.tree, form.tree_tidy]

theorem Items.trees_tidy : ∀ items : Items, items.tidy.trees = items.trees
  | .done trail => by rw [Items.tidy, Items.trees, Items.trees]
  | .next gap _ item rest => by
    rw [Items.tidy, Items.trees, Items.trees, item.tree_tidy, rest.trees_tidy]

end

mutual

theorem Form.height_tidy : ∀ form : Form, form.tidy.height = form.height
  | ⟨lead, command, items⟩ => by rw [Form.tidy, Form.height, Form.height, items.height_tidy]

theorem Item.height_tidy : ∀ item : Item, item.tidy.height = item.height
  | .atom atom => by rw [Item.tidy]
  | .group form => by rw [Item.tidy, Item.height, Item.height, form.height_tidy]

theorem Items.height_tidy : ∀ items : Items, items.tidy.height = items.height
  | .done trail => by rw [Items.tidy, Items.height, Items.height]
  | .next gap _ item rest => by
    rw [Items.tidy, Items.height, Items.height, item.height_tidy, rest.height_tidy]

end

mutual

/-- **The tree of a group is printed as the tidy group.** -/
theorem Form.pretty_tree : ∀ form : Form,
    form.tree.pretty = '(' :: (form.tidy.content ++ [')'])
  | ⟨lead, command, items⟩ => by
    rw [Form.tree, Node.pretty, items.prettyArgs_trees, Form.tidy, Form.content]
    rfl

theorem Item.pretty_tree : ∀ item : Item, item.tree.pretty = item.tidy.text
  | .atom atom => by rw [Item.tree, Argument.pretty, Item.tidy, Item.text]
  | .group form => by
    rw [Item.tree, Argument.pretty, form.pretty_tree, Item.tidy, Item.text]

theorem Items.prettyArgs_trees : ∀ items : Items, prettyArgs items.trees = items.tidy.text
  | .done trail => by
    rw [Items.trees, prettyArgs, Items.tidy, Items.text]
    rfl
  | .next gap _ item rest => by
    rw [Items.trees, prettyArgs, item.pretty_tree, rest.prettyArgs_trees, Items.tidy, Items.text]
    rfl

end

/-! ### Tidy sources -/

/-- No filler. -/
def Filler.none : Filler := ⟨[], fun _ h => absurd h List.not_mem_nil⟩

/-- The filler between two lines. -/
def Filler.newline : Filler := ⟨['\n'], List.forall_mem_singleton.2 (by decide)⟩

/-- The groups of a source one a line, each of them tidy, the first behind the given filler. -/
def Program.tidy (lead : Filler) : Program → Program
  | .done _ => .done .none
  | .group _ form rest => .group lead form.tidy (rest.tidy .newline)

theorem Program.trees_tidy (lead : Filler) (p : Program) : (p.tidy lead).trees = p.trees := by
  induction p generalizing lead with
  | done filler => rfl
  | group filler form rest ih =>
    rw [Program.tidy, Program.trees, Program.trees, form.tree_tidy, ih]

theorem Program.height_tidy (lead : Filler) (p : Program) : (p.tidy lead).height = p.height := by
  induction p generalizing lead with
  | done filler => rfl
  | group filler form rest ih =>
    rw [Program.tidy, Program.height, Program.height, form.height_tidy, ih]

theorem Program.text_tidy_newline (p : Program) :
    (p.tidy .newline).text = p.trees.flatMap fun n => '\n' :: n.pretty := by
  induction p with
  | done filler => rfl
  | group filler form rest ih =>
    rw [Program.tidy, Program.text, Program.trees, List.flatMap_cons, form.pretty_tree, ih]
    simp [Filler.newline]

theorem intercalate_cons (sep t : Text) (ts : List Text) :
    List.intercalate sep (t :: ts) = t ++ ts.flatMap (sep ++ ·) := by
  induction ts generalizing t with
  | nil => simp [List.intercalate]
  | cons u us ih =>
    rw [List.intercalate_cons_cons, ih, List.flatMap_cons, List.append_assoc, List.append_assoc]

/-- The trees of a source, printed one a line, are the text of the tidy source. -/
theorem Program.text_tidy (p : Program) :
    (p.tidy .none).text = List.intercalate ['\n'] (p.trees.map Node.pretty) := by
  cases p with
  | done filler => rfl
  | group filler form rest =>
    rw [Program.tidy, Program.text, Program.trees, List.map_cons, intercalate_cons,
      List.flatMap_map, form.pretty_tree, rest.text_tidy_newline]
    simp [Filler.none]

/-- A derivation that nests at most as deep as allowed is parsed as its trees, without report. -/
theorem parse_program (c : Compiler) {p : Program} (h : p.height ≤ c.maxDepth) :
    (c.parse p.text).reports = [] ∧ (c.parse p.text).value.map Node.eraseSpans = p.trees := by
  obtain ⟨hread, htrees⟩ := read_program c p h 0
  refine ⟨(reports_parse_iff c p.text).2 ⟨p.balanced, hread⟩, ?_⟩
  rw [c.value_parse]
  exact htrees

end Grammar

/-! ### Compiling looks at no span -/

namespace Registry

variable (r : Registry) (n : Node)

theorem value_render_eraseSpans : (r.render n.eraseSpans).value = (r.render n).value := by
  rw [Node.eraseSpans, render_mapSpans]

theorem faults_render_eraseSpans :
    (r.render n.eraseSpans).reports.map Report.fault = (r.render n).reports.map Report.fault := by
  rw [Node.eraseSpans, render_mapSpans, List.map_map]
  rfl

end Registry

namespace Compiler

variable (c : Compiler)

section SameTrees

variable {c} {s t : Text} (htrees : (c.parse s).value.map Node.eraseSpans =
  (c.parse t).value.map Node.eraseSpans)
include htrees

theorem lines_eq_of_trees :
    lines (c.fragments s).value = lines (c.fragments t).value := by
  have hlines : ∀ u, lines (c.fragments u).value =
      ((c.parse u).value.map Node.eraseSpans).flatMap
        fun n => (c.registry.render n).value ++ ['\n'] := by
    intro u
    simp only [lines_fragments, List.flatMap_map, Registry.value_render_eraseSpans]
  rw [hlines, hlines, htrees]

theorem faults_eq_of_trees (hs : (c.parse s).reports = []) (ht : (c.parse t).reports = []) :
    (c.fragments s).reports.map Report.fault = (c.fragments t).reports.map Report.fault := by
  have hfaults : ∀ u, (c.parse u).reports = [] → (c.fragments u).reports.map Report.fault =
      ((c.parse u).value.map Node.eraseSpans).flatMap
        fun n => (c.registry.render n).reports.map Report.fault := by
    intro u hu
    simp only [reports_fragments_of_parse c u hu, List.map_flatMap, List.flatMap_map,
      Registry.faults_render_eraseSpans]
  rw [hfaults s hs, hfaults t ht, htrees]

/-- **Compiling depends on the trees alone.** Sources that are parsed without report and have the
same trees up to spans have the same output and the same faults. -/
theorem compile_eq_of_trees (name : String) (hs : (c.parse s).reports = [])
    (ht : (c.parse t).reports = []) :
    (c.compile ⟨name, s⟩).output = (c.compile ⟨name, t⟩).output ∧
      (c.compile ⟨name, s⟩).diagnostics.map Diagnostic.fault =
        (c.compile ⟨name, t⟩).diagnostics.map Diagnostic.fault := by
  have hfaults := faults_eq_of_trees htrees hs ht
  have hsilent : (c.fragments s).reports = [] ↔ (c.fragments t).reports = [] := by
    rw [← List.map_eq_nil_iff (f := Report.fault), hfaults, List.map_eq_nil_iff]
  refine ⟨?_, by rw [faults_compile, faults_compile, hfaults]⟩
  simp only [output_compile, hsilent, lines_eq_of_trees htrees]

end SameTrees

/-- The trees of a source, printed one a line. -/
def reprint (source : Text) : Text :=
  List.intercalate ['\n'] ((c.parse source).value.map Node.pretty)

theorem pretty_map_eraseSpans (ns : List Node) :
    (ns.map Node.eraseSpans).map Node.pretty = ns.map Node.pretty := by
  rw [List.map_map]
  exact List.map_congr_left fun n _ => n.pretty_mapSpans _

/-- **Printing is inverse to parsing.** If a source is parsed without report, so are its trees when
they are printed, and the same trees are read from them up to spans; they are printed in the same
way again. Both texts have the same output, if any, and the same faults in the same order. -/
theorem parse_reprint (name : String) {source : Text} (h : (c.parse source).reports = []) :
    (c.parse (c.reprint source)).reports = [] ∧
    (c.parse (c.reprint source)).value.map Node.eraseSpans =
      (c.parse source).value.map Node.eraseSpans ∧
    (c.parse (c.reprint source)).value.map Node.pretty = (c.parse source).value.map Node.pretty ∧
    (c.compile ⟨name, c.reprint source⟩).output = (c.compile ⟨name, source⟩).output ∧
    (c.compile ⟨name, c.reprint source⟩).diagnostics.map Diagnostic.fault =
      (c.compile ⟨name, source⟩).diagnostics.map Diagnostic.fault := by
  obtain ⟨hbalanced, hread⟩ := (Grammar.reports_parse_iff c source).1 h
  obtain ⟨p, rfl, hheight⟩ := Grammar.exists_program c hbalanced 0 hread
  have htrees := (Grammar.parse_program c hheight).2
  -- The printed text has the tidy derivation, which has the same trees and nests no deeper.
  have hreprint : c.reprint p.text = (p.tidy .none).text := by
    rw [reprint, p.text_tidy, ← htrees, pretty_map_eraseSpans]
  have htidy : (p.tidy .none).height ≤ c.maxDepth := by rwa [p.height_tidy]
  obtain ⟨hsilent, hagain⟩ := Grammar.parse_program c htidy
  rw [p.trees_tidy, ← htrees] at hagain
  rw [hreprint]
  refine ⟨hsilent, hagain, ?_, compile_eq_of_trees hagain name hsilent h⟩
  rw [← pretty_map_eraseSpans, hagain, pretty_map_eraseSpans]

/-- Filler, an atom with a blank inside, a wide blank, a literal that is no name and a command that
is not registered. -/
theorem reprint_two_groups :
    (parse { maxDepth := 2 } "f ( add x(a b)\u3000(neg 1)) ! (nope)".toList).reports = [] ∧
    reprint { maxDepth := 2 } "f ( add x(a b)\u3000(neg 1)) ! (nope)".toList =
      "(add x(a b) (neg 1))\n(nope)".toList ∧
    (compile { maxDepth := 2 } ⟨"input", "(add x(a b) (neg 1))\n(nope)".toList⟩).output = none ∧
    (compile { maxDepth := 2 } ⟨"input", "(add x(a b) (neg 1))\n(nope)".toList⟩).diagnostics.map
        Diagnostic.fault =
      [.malformedIdentifier "x(a b)".toList, .unknownCommand "nope".toList] := by
  have hsilent : (parse { maxDepth := 2 }
      "f ( add x(a b)\u3000(neg 1)) ! (nope)".toList).reports = [] := by decide +kernel
  have hreprint : reprint { maxDepth := 2 } "f ( add x(a b)\u3000(neg 1)) ! (nope)".toList =
      "(add x(a b) (neg 1))\n(nope)".toList := by decide +kernel
  obtain ⟨-, -, -, houtput, hfaults⟩ := parse_reprint { maxDepth := 2 } "input" hsilent
  rw [hreprint] at houtput hfaults
  exact ⟨hsilent, hreprint, houtput.trans (by decide +kernel), hfaults.trans (by decide +kernel)⟩

end Compiler

end GraphTex
