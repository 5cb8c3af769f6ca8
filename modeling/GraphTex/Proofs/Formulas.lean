import GraphTex.Proofs.Written

/-!
# Formulas

A formula is a tree of arithmetic commands over numerals and names without a minus sign, each
command with the number of operands that it is written with (`Node.IsFormula`). Two kinds of
commands write formulas. One puts fixed words around its operands (`Shape`), the other puts a sign
between them (`Sign`). This module says how formulas are written in these terms
(`value_render_shape`, `value_render_sign`), so that what is written can be read back without a look
at templates. Of a tree, only its commands, its literals and its nesting are written (`Node.bare`,
`value_render_bare`).
-/

namespace GraphTex

/-! ### Bare trees -/

mutual

/-- The tree with its commands, its literals and its nesting only. -/
def Node.bare : Node → Node
  | ⟨command, _, args, _, _⟩ => ⟨command, default, bareArgs args, default, false⟩

/-- The argument with its commands, its literals and its nesting only. -/
def Argument.bare : Argument → Argument
  | .literal text _ => .literal text default
  | .expr node => .expr node.bare

/-- The arguments with their commands, their literals and their nesting only. -/
def bareArgs : List Argument → List Argument
  | [] => []
  | arg :: rest => arg.bare :: bareArgs rest

end

theorem bareArgs_eq (args : List Argument) : bareArgs args = args.map Argument.bare := by
  induction args with
  | nil => rw [bareArgs, List.map_nil]
  | cons arg rest ih => rw [bareArgs, ih, List.map_cons]

/-- A command applied to arguments that stand nowhere. -/
def Argument.call (command : Text) (args : List Argument) : Argument :=
  .expr ⟨command, default, args, default, false⟩

theorem Node.bare_eq (n : Node) :
    n.bare = ⟨n.command, default, n.args.map Argument.bare, default, false⟩ := by
  cases n
  rw [Node.bare, bareArgs_eq]

@[simp] theorem Argument.bare_literal (text : Text) (span : Span) :
    (Argument.literal text span).bare = .literal text default := by rw [Argument.bare]

@[simp] theorem Argument.bare_expr (n : Node) :
    (Argument.expr n).bare = .call n.command (n.args.map Argument.bare) := by
  rw [Argument.bare, Node.bare_eq, Argument.call]

theorem Position.value_renderLiteral (position : Position) (text : Text) (span span' : Span) :
    (position.renderLiteral text span).value = (position.renderLiteral text span').value := by
  obtain ⟨written, hnone | ⟨fault, hone, -⟩⟩ := position.renderLiteral_cases text
  · rw [hnone, hnone]
  · rw [hone, hone]

namespace Registry

variable {r : Registry}

theorem value_renderArgs_congr {command : Text} {args : List Argument} {f : Argument → Argument}
    (hargs : ∀ arg ∈ args, ∀ position,
      (r.renderArg command position (f arg)).value = (r.renderArg command position arg).value)
    (slots : List Slot) (rest : Option Position) :
    (r.renderArgs command slots rest (args.map f)).value =
      (r.renderArgs command slots rest args).value := by
  fun_induction Slot.places slots rest args with
  | case1 => rfl
  | case2 first args =>
    rw [List.map_cons, renderArgs, renderArgs]
  | case3 position first args ih =>
    have hfirst := hargs first List.mem_cons_self position
    have hlater := ih fun arg harg => hargs arg (List.mem_cons_of_mem first harg)
    rw [List.map_cons, renderArgs, renderArgs]
    simp [hfirst, hlater]
  | case4 slot slots rest first args ih =>
    have hfirst := hargs first List.mem_cons_self slot.position
    have hlater := ih fun arg harg => hargs arg (List.mem_cons_of_mem first harg)
    rw [List.map_cons, value_renderArgs_cons, value_renderArgs_cons, hfirst, hlater]

/-- A tree is written as its bare tree is. -/
theorem value_render_bare (r : Registry) (n : Node) :
    (r.render n.bare).value = (r.render n).value := by
  induction n using Node.induction with
  | node n ih =>
    have hargs : ∀ arg ∈ n.args, ∀ position,
        (r.renderArg n.command position arg.bare).value =
          (r.renderArg n.command position arg).value := by
      intro arg harg position
      cases arg with
      | literal text span =>
        rw [Argument.bare, renderArg_literal, renderArg_literal]
        exact position.value_renderLiteral text default span
      | expr child =>
        rw [Argument.bare, renderArg_expr, renderArg_expr]
        exact ih child harg
    have hcommand : n.bare.command = n.command := by rw [Node.bare_eq]
    cases hget : r.get? n.command with
    | none => rw [render_unknown hget, render_unknown (by rw [hcommand, hget])]
    | some c =>
      rw [render_known hget, render_known (by rw [hcommand, hget]), Node.bare_eq]
      exact congrArg (Template.fill · c.rule.template) (value_renderArgs_congr hargs _ _)

end Registry

/-! ### Formulas -/

/-- The command is one of arithmetic, and formulas apply it to that many operands. -/
def isOperation (command : Text) (count : Nat) : Bool :=
  isAmong command ["add", "sub", "mul"] && decide (2 ≤ count) ||
    isAmong command ["pow", "frac", "root", "log"] && count == 2 ||
    isAmong command ["sqrt", "ln", "neg", "fact"] && count == 1

mutual

/-- An operation applied to as many operands as it is written with, all of them formulas. -/
inductive Node.IsFormula : Node → Prop
  | intro {n : Node} (hoperation : isOperation n.command n.args.length = true)
      (hargs : ∀ arg ∈ n.args, Argument.IsFormula arg) : Node.IsFormula n

/-- A literal without a minus sign that is accepted as a value, or an operation. -/
inductive Argument.IsFormula : Argument → Prop
  | literal {text : Text} {span : Span}
      (haccepted : (Position.value.renderLiteral text span).reports = []) (hminus : '-' ∉ text) :
      Argument.IsFormula (.literal text span)
  | expr {n : Node} (h : Node.IsFormula n) : Argument.IsFormula (.expr n)

end

/-- What is written for an argument in the place of a value. -/
def Argument.operand (a : Argument) : Text := (Registry.standard.renderArg [] .value a).value

@[simp] theorem Argument.operand_expr (n : Node) :
    (Argument.expr n).operand = (Registry.standard.render n).value := by
  rw [Argument.operand, Registry.renderArg_expr]

@[simp] theorem Argument.operand_literal (text : Text) (span : Span) :
    (Argument.literal text span).operand = (Position.value.renderLiteral text span).value := by
  rw [Argument.operand, Registry.renderArg_literal]

/-- It is the same for every command. -/
theorem Argument.value_renderArg (a : Argument) (command : Text) :
    (Registry.standard.renderArg command .value a).value = a.operand := by
  cases a with
  | literal text span => rw [Registry.renderArg_literal, Argument.operand_literal]
  | expr n => rw [Registry.renderArg_expr, Argument.operand_expr]

section Operands

variable {n : Node} {t : Template}

theorem value_render_ofValues
    (h : (Registry.standard.get? n.command).map Command.rule =
      some (Family.ofValues n.args.length t)) :
    (Registry.standard.render n).value = t.fill (n.args.map Argument.operand) := by
  have hoperands : ∀ args : List Argument,
      (Registry.standard.renderArgs n.command (Family.values args.length) none args).value =
        args.map Argument.operand := by
    intro args
    induction args with
    | nil => rw [Registry.renderArgs]; rfl
    | cons arg args ih =>
      rw [Family.values, List.length_cons, List.replicate_succ, Registry.value_renderArgs_cons,
        Argument.value_renderArg, List.map_cons]
      exact congrArg _ ih
  obtain ⟨c, hget, hrule⟩ := Option.map_eq_some_iff.1 h
  rw [Registry.render_known hget, hrule, ← hoperands]
  rfl

theorem value_render_ofAll
    (h : (Registry.standard.get? n.command).map Command.rule = some (Family.ofAll t)) :
    (Registry.standard.render n).value = t.fill (n.args.map Argument.operand) := by
  have hoperands : ∀ args : List Argument,
      (Registry.standard.renderArgs n.command [] (some .value) args).value =
        args.map Argument.operand := by
    intro args
    induction args with
    | nil => rw [Registry.renderArgs]; rfl
    | cons arg args ih =>
      rw [Registry.renderArgs]
      simp [Argument.value_renderArg, ih]
  obtain ⟨c, hget, hrule⟩ := Option.map_eq_some_iff.1 h
  rw [Registry.render_known hget, hrule, ← hoperands]
  rfl

end Operands

/-! ### What templates write -/

namespace Template

variable (fragments : List Text) (s t : Template)

theorem fill_hAppend : (s ++ t).fill fragments = s.fill fragments ++ t.fill fragments := rfl

theorem fill_word (w : String) : (word w).fill fragments = w.toList := rfl

theorem fill_hole (index : Nat) : (hole index).fill fragments = fragments[index]?.getD [] := rfl

theorem fill_braces :
    (braces t).fill fragments = "\x7b".toList ++ t.fill fragments ++ "\x7d".toList := rfl

theorem fill_brackets :
    (brackets t).fill fragments = "[".toList ++ t.fill fragments ++ "]".toList := rfl

theorem fill_parens :
    (parens t).fill fragments = "\\left(".toList ++ t.fill fragments ++ "\\right)".toList := rfl

end Template

/-! ### Words around operands -/

/-- An operation with a fixed number of operands: its template, and the words that the template
puts around the operands. -/
structure Shape where
  command : Text
  template : Template
  opening : Text
  /-- What is written behind each operand. -/
  closings : List Text
  /-- Whether the operands are written from the last to the first. -/
  swapped : Bool

namespace Shape

open Template

/-- A shape with its words as strings. -/
def row (command : String) (template : Template) (opening : String) (closings : List String)
    (swapped : Bool) : Shape :=
  ⟨command.toList, template, opening.toList, closings.map String.toList, swapped⟩

/-- The shapes that are told by their openings. -/
def plain : List Shape :=
  [ row "frac" (word "\\frac" ++ braces (hole 0) ++ braces (hole 1)) "\\frac\x7b"
      ["\x7d\x7b", "\x7d"] false,
    row "root" (word "\\sqrt" ++ brackets (hole 1) ++ braces (hole 0)) "\\sqrt["
      ["]\x7b", "\x7d"] true,
    row "sqrt" (word "\\sqrt" ++ braces (hole 0)) "\\sqrt\x7b" ["\x7d"] false,
    row "log" (word "\\log_" ++ braces (hole 1) ++ parens (hole 0)) "\\log_\x7b"
      ["\x7d\\left(", "\\right)"] true,
    row "ln" (word "\\ln" ++ parens (hole 0)) "\\ln\\left(" ["\\right)"] false,
    row "neg" (parens (word "-" ++ hole 0)) "\\left(-" ["\\right)"] false ]

/-- A factorial starts like a sum. -/
def fact : Shape := row "fact" (parens (hole 0) ++ word "!") "\\left(" ["\\right)!"] false

/-- A power starts like a sum whose first operand starts like a sum. -/
def pow : Shape :=
  row "pow" (parens (parens (hole 0) ++ word "^" ++ braces (parens (hole 1)))) "\\left(\\left("
    ["\\right)^\x7b\\left(", "\\right)\x7d\\right)"] false

/-- All operations with a fixed number of operands. -/
def all : List Shape := fact :: pow :: plain

/-- Changes between the order in which operands are given and that in which they are written. -/
def arrange {α : Type} (s : Shape) (operands : List α) : List α :=
  if s.swapped then operands.reverse else operands

section arrange

variable {α β : Type} (s : Shape) (operands : List α)

theorem arrange_arrange : s.arrange (s.arrange operands) = operands := by
  unfold arrange
  split_ifs <;> simp

theorem arrange_map (f : α → β) : s.arrange (operands.map f) = (s.arrange operands).map f := by
  unfold arrange
  split_ifs <;> simp

theorem length_arrange : (s.arrange operands).length = operands.length := by
  unfold arrange
  split_ifs <;> simp

theorem mem_arrange {a : α} : a ∈ s.arrange operands ↔ a ∈ operands := by
  unfold arrange
  split_ifs <;> simp

end arrange

/-- Operands with a word behind each of them. -/
def enclose : List Text → List Text → Text
  | operand :: operands, closing :: closings => operand ++ (closing ++ enclose operands closings)
  | _, _ => []

theorem rule_of_mem : ∀ s ∈ all, (Registry.standard.get? s.command).map Command.rule =
    some (Family.ofValues s.closings.length s.template) := by
  decide +kernel

theorem fill_template {s : Shape} (hs : s ∈ all) {fragments : List Text}
    (hcount : fragments.length = s.closings.length) :
    s.template.fill fragments = s.opening ++ enclose (s.arrange fragments) s.closings := by
  simp only [all, plain, List.mem_cons, List.not_mem_nil, or_false] at hs
  rcases hs with rfl | rfl | rfl | rfl | rfl | rfl | rfl | rfl
  -- each shape has one operand or two
  all_goals
    first
    | obtain ⟨a, rfl⟩ := List.length_eq_one_iff.1 hcount
    | obtain ⟨a, b, rfl⟩ := List.length_eq_two.1 hcount
    simp [fact, pow, row, fill_hAppend, fill_parens, fill_braces, fill_brackets, fill_hole,
      fill_word, arrange, enclose]

end Shape

/-- **How an operation with a fixed number of operands is written.** -/
theorem value_render_shape {s : Shape} (hs : s ∈ Shape.all) {n : Node}
    (hcommand : n.command = s.command) (hcount : n.args.length = s.closings.length) :
    (Registry.standard.render n).value =
      s.opening ++ Shape.enclose ((s.arrange n.args).map Argument.operand) s.closings := by
  have hrule := Shape.rule_of_mem s hs
  rw [← hcommand, ← hcount] at hrule
  have hfragments : (n.args.map Argument.operand).length = s.closings.length := by
    rw [List.length_map, hcount]
  rw [value_render_ofValues hrule, Shape.fill_template hs hfragments, Shape.arrange_map]

/-! ### Signs between operands -/

namespace Latex

/-- The blank that keeps a control word at the end of a separator apart from what follows. -/
def seam (separator part : Text) : Text :=
  if startsWithLetter part && endsInControlWord separator then [' '] else []

theorem push_push {separator : Text} (hne : separator ≠ [])
    (hletter : startsWithLetter separator = false) (written part : Text) :
    push (push written separator) part =
      written ++ (separator ++ (seam separator part ++ part)) := by
  have hword : endsInControlWord (written ++ separator) = endsInControlWord separator := by
    rw [Bool.eq_iff_iff]
    refine ⟨fun h => ?_, endsInControlWord_append_left written⟩
    exact (endsInControlWord_append h hne).resolve_right (by simp [hletter])
  have hinner : push written separator = written ++ separator := if_neg (by simp [hletter])
  rw [hinner, push, seam, hword]
  split_ifs <;> simp

/-- Joining puts the separator, and a blank where it needs one, in front of all parts but the
first. -/
theorem join_cons {separator : Text} (hne : separator ≠ [])
    (hletter : startsWithLetter separator = false) (first : Text) (parts : List Text) :
    join separator (first :: parts) =
      first ++ parts.flatMap fun part => separator ++ (seam separator part ++ part) := by
  rw [join]
  induction parts generalizing first with
  | nil => simp
  | cons part parts ih =>
    rw [List.foldl_cons, ih, push_push hne hletter, List.flatMap_cons, List.append_assoc]

end Latex

/-- An operation that is written with a sign between its operands. -/
structure Sign where
  command : Text
  text : Text

namespace Sign

/-- All operations with a sign. -/
def all : List Sign :=
  [⟨"add".toList, "+".toList⟩, ⟨"sub".toList, "-".toList⟩, ⟨"mul".toList, "\\cdot".toList⟩]

theorem rule_of_mem : ∀ s ∈ all, (Registry.standard.get? s.command).map Command.rule =
    some (Family.ofAll (Template.parens (.joined 0 s.text))) := by
  decide +kernel

theorem text_of_mem : ∀ s ∈ all, s.text ≠ [] ∧ Latex.startsWithLetter s.text = false := by
  decide

/-- The further operands, each behind the sign. -/
def chain (s : Sign) (operands : List Text) : Text :=
  operands.flatMap fun operand => s.text ++ (Latex.seam s.text operand ++ operand)

end Sign

/-- **How an operation with a sign is written.** -/
theorem value_render_sign {s : Sign} (hs : s ∈ Sign.all) {n : Node}
    (hcommand : n.command = s.command) {first : Argument} {more : List Argument}
    (hargs : n.args = first :: more) :
    (Registry.standard.render n).value =
      "\\left(".toList ++
        (first.operand ++ (s.chain (more.map Argument.operand) ++ "\\right)".toList)) := by
  have hrule := Sign.rule_of_mem s hs
  obtain ⟨hne, hletter⟩ := Sign.text_of_mem s hs
  rw [← hcommand] at hrule
  rw [value_render_ofAll hrule, Template.fill_parens, Template.fill, List.drop_zero, hargs,
    List.map_cons, Latex.join_cons hne hletter, Sign.chain, List.append_assoc, List.append_assoc]

/-- A formula puts words around its operands or a sign between them. -/
theorem Node.IsFormula.shape_or_sign {n : Node} (h : n.IsFormula) :
    (∃ s ∈ Shape.all, n.command = s.command ∧ n.args.length = s.closings.length) ∨
      ∃ s ∈ Sign.all, n.command = s.command ∧ 2 ≤ n.args.length := by
  have hsigns : ∀ name ∈ ["add", "sub", "mul"], ∃ s ∈ Sign.all, name.toList = s.command := by
    decide
  have htwo : ∀ name ∈ ["pow", "frac", "root", "log"],
      ∃ s ∈ Shape.all, name.toList = s.command ∧ 2 = s.closings.length := by
    decide
  have hone : ∀ name ∈ ["sqrt", "ln", "neg", "fact"],
      ∃ s ∈ Shape.all, name.toList = s.command ∧ 1 = s.closings.length := by
    decide
  obtain ⟨hoperation, -⟩ := h
  simp only [isOperation, isAmong, Bool.or_eq_true, Bool.and_eq_true, List.any_eq_true, beq_iff_eq,
    decide_eq_true_eq] at hoperation
  rcases hoperation with (⟨⟨name, hname, hcommand⟩, hcount⟩ | ⟨⟨name, hname, hcommand⟩, hcount⟩) |
    ⟨⟨name, hname, hcommand⟩, hcount⟩
  · obtain ⟨s, hs, hsign⟩ := hsigns name hname
    exact .inr ⟨s, hs, hcommand ▸ hsign, hcount⟩
  · obtain ⟨s, hs, hshape, hclosings⟩ := htwo name hname
    exact .inl ⟨s, hs, hcommand ▸ hshape, hcount.trans hclosings⟩
  · obtain ⟨s, hs, hshape, hclosings⟩ := hone name hname
    exact .inl ⟨s, hs, hcommand ▸ hshape, hcount.trans hclosings⟩

end GraphTex
