import GraphTex.Proofs.Checking
import GraphTex.Proofs.Linearity
import GraphTex.Proofs.Names

/-!
# Lines of the output

There is one fragment for each group, and a line break behind each fragment. Templates have no line
break, names and numerals have none, and every fragment that a rule makes of an argument is written
exactly once (`standard_linear`). Only the literals of `latex` are kept as they are, and a literal
goes on through line breaks inside parentheses. So the line breaks of a fragment are those of the
literals of `latex` in its tree (`breaks_render`), and the output has that many lines more than
there are groups (`output_lines`).
-/

namespace GraphTex

open Latex

/-- The number of line breaks in a text. -/
def breaks (t : Text) : Nat := t.count '\n'

@[simp] theorem breaks_nil : breaks [] = 0 := rfl

@[simp] theorem breaks_append (s t : Text) : breaks (s ++ t) = breaks s + breaks t :=
  List.count_append

theorem breaks_cons_of_ne {c : Char} (h : c ≠ '\n') (t : Text) : breaks (c :: t) = breaks t :=
  List.count_cons_of_ne h

theorem breaks_eq_zero {t : Text} (h : '\n' ∉ t) : breaks t = 0 := List.count_eq_zero.2 h

/-- The line breaks of texts in a row, each of which has those of two others. -/
theorem breaks_flatMap_add {α : Type} {items : List α} {f g k : α → Text}
    (h : ∀ item ∈ items, breaks (f item) = breaks (g item) + breaks (k item)) :
    breaks (items.flatMap f) = breaks (items.flatMap g) + breaks (items.flatMap k) := by
  induction items with
  | nil => rfl
  | cons item items ih =>
    have hlater := ih fun i hi => h i (List.mem_cons_of_mem item hi)
    rw [List.flatMap_cons, List.flatMap_cons, List.flatMap_cons, breaks_append, breaks_append,
      breaks_append, h item List.mem_cons_self, hlater]
    omega

/-! ### Joining -/

theorem breaks_push (written fragment : Text) :
    breaks (push written fragment) = breaks written + breaks fragment := by
  unfold push
  split_ifs
  · rw [breaks_append, breaks_cons_of_ne (by decide)]
  · rw [breaks_append]

theorem breaks_join {separator : Text} (h : breaks separator = 0) (parts : List Text) :
    breaks (join separator parts) = breaks parts.flatten := by
  have hfold : ∀ (rest : List Text) (written : Text),
      breaks (rest.foldl (fun written part => push (push written separator) part) written) =
        breaks written + breaks rest.flatten := by
    intro rest
    induction rest with
    | nil => exact fun written => rfl
    | cons part rest ih =>
      intro written
      rw [List.foldl_cons, ih, breaks_push, breaks_push, h, List.flatten_cons, breaks_append]
      omega
  cases parts with
  | nil => rfl
  | cons first rest => rw [join, hfold, List.flatten_cons, breaks_append]

/-! ### Templates -/

/-- The fixed texts and the separators have no line break. -/
def Template.isBreakless : Template → Bool
  | text t => breaks t == 0
  | hole _ => true
  | joined _ separator => breaks separator == 0
  | enclosed _ body => body.isBreakless
  | append left right => left.isBreakless && right.isBreakless

/-- The line breaks of a filled template are those of the fragments at its places. -/
theorem Template.breaks_fill {t : Template} (h : t.isBreakless = true) (fragments : List Text) :
    breaks (t.fill fragments) = breaks (t.gather fragments) := by
  induction t with
  | text t => exact beq_iff_eq.1 h
  | hole index => rfl
  | joined first separator => exact breaks_join (beq_iff_eq.1 h) _
  | enclosed d body ih =>
    have hopening : breaks d.opening = 0 := by cases d <;> decide
    have hclosing : breaks d.closing = 0 := by cases d <;> decide
    rw [fill, gather, breaks_append, breaks_append, hopening, hclosing, ih h, Nat.zero_add,
      Nat.add_zero]
  | append left right ihleft ihright =>
    rw [isBreakless, Bool.and_eq_true] at h
    rw [fill, gather, breaks_append, breaks_append, ihleft h.1, ihright h.2]

/-- **A linear rule keeps all line breaks of its fragments**, and its template makes no further
ones. -/
theorem Rule.breaks_fill {rule : Rule} (hlinear : rule.isLinear = true)
    (hbreakless : rule.template.isBreakless = true) {fragments : List Text}
    (hlength : rule.rest = none → fragments.length = rule.slots.length) :
    breaks (rule.template.fill fragments) = breaks fragments.flatten :=
  (Template.breaks_fill hbreakless fragments).trans
    ((Rule.gather_perm hlinear hlength).count_eq '\n')

/-- Neither the template nor what stands in for a missing argument has a line break. -/
def Rule.isBreakless (rule : Rule) : Bool :=
  rule.template.isBreakless && rule.slots.all fun slot => breaks slot.missing == 0

theorem standard_breakless : ∀ c ∈ Registry.standard.commands, c.rule.isBreakless = true := by
  decide +kernel

/-- Only `latex` keeps literals as they are, and it keeps them all. -/
theorem standard_verbatim : ∀ c ∈ Registry.standard.commands,
    if c.name = "latex".toList then c.rule.slots = [] ∧ c.rule.rest = some .verbatim
    else (∀ slot ∈ c.rule.slots, slot.position ≠ .verbatim) ∧ c.rule.rest ≠ some .verbatim := by
  decide +kernel

/-! ### Arguments -/

theorem Registry.length_renderArgs_none {r : Registry} (command : Text) (slots : List Slot)
    (args : List Argument) :
    (r.renderArgs command slots none args).value.length = slots.length := by
  induction slots generalizing args with
  | nil => cases args <;> simp [Registry.renderArgs]
  | cons slot slots ih =>
    cases args with
    | nil => simp [Registry.renderArgs]
    | cons arg args => rw [Registry.value_renderArgs_cons, List.length_cons, ih, List.length_cons]

/-- The line breaks of a node are those of the arguments that its rule looks at. -/
theorem breaks_render_known {n : Node} {c : Command}
    (h : Registry.standard.get? n.command = some c) :
    breaks (Registry.standard.render n).value =
      breaks ((c.rule.places n.args).flatMap fun place =>
        (Registry.standard.renderArg n.command place.1 place.2).value) := by
  have hcommand := (Registry.get?_eq_some h).1
  obtain ⟨htemplate, hslots⟩ := Bool.and_eq_true_iff.1 (standard_breakless c hcommand)
  have hmissing : breaks ((c.rule.slots.drop n.args.length).map Slot.missing).flatten = 0 := by
    refine breaks_eq_zero fun hbreak => ?_
    obtain ⟨t, ht, hmem⟩ := List.mem_flatten.1 hbreak
    obtain ⟨slot, hslot, rfl⟩ := List.mem_map.1 ht
    have hnone := List.all_eq_true.1 hslots slot (List.mem_of_mem_drop hslot)
    exact List.count_eq_zero.1 (beq_iff_eq.1 hnone) hmem
  rw [Registry.render_known h, Rule.breaks_fill (standard_linear c hcommand) htemplate,
    Registry.value_renderArgs, List.flatten_append, breaks_append, hmissing, Nat.add_zero,
    ← List.flatMap_def]
  · rfl
  · intro hrest
    rw [hrest, Registry.length_renderArgs_none]

theorem breaks_of_isNumeral {t : Text} (h : IsNumeral t) : breaks t = 0 :=
  breaks_eq_zero fun hbreak => absurd (h.2 '\n' hbreak) (by decide)

theorem breaks_renderName {t : Text} (h : IsName t) (span : Span) :
    breaks (Position.renderName t span).value = 0 := by
  obtain ⟨first, rest, rfl, hfirst, hrest⟩ := id h
  have hchar : first ≠ '\n' := by
    rintro rfl
    exact absurd hfirst (by decide)
  have hlater : breaks rest = 0 :=
    breaks_eq_zero fun hbreak => absurd (hrest '\n' hbreak) (by decide)
  rw [renderName_of_isName h, Logged.value_pure]
  split_ifs
  · exact breaks_cons_of_ne hchar []
  · rw [breaks_cons_of_ne hchar, breaks_cons_of_ne (by decide), breaks_cons_of_ne (by decide),
      breaks_append, hlater]
    rfl

/-- A literal that is not kept as it is has no line break. -/
theorem breaks_renderLiteral {position : Position} (hposition : position ≠ .verbatim) {text : Text}
    {span : Span} (h : Meets position.demand (.literal text span)) :
    breaks (position.renderLiteral text span).value = 0 := by
  cases position with
  | value =>
    rw [Position.renderLiteral]
    split_ifs with hnumeral
    · exact breaks_of_isNumeral ((isNumeral_iff text).1 hnumeral)
    · rcases meets_value_literal.1 h with h | h
      · exact absurd ((isNumeral_iff text).2 h) hnumeral
      · exact breaks_renderName h span
  | name role => exact breaks_renderName (meets_name_literal.1 h) span
  | verbatim => exact absurd rfl hposition

/-! ### Text that is kept -/

/-- The text of an argument that is a literal. -/
def Argument.literalText : Argument → Text
  | .literal text _ => text
  | .expr _ => []

/-- What a node keeps as it is: the literals of `latex`, and nothing of other commands. -/
def Node.kept (n : Node) : Text :=
  if n.command = "latex".toList then n.args.flatMap Argument.literalText else []

/-- All that is kept as it is in a tree, in a row. -/
def Node.verbatim (n : Node) : Text := n.checked.flatMap Node.kept

theorem checkedOfArgs_eq_nil {ignores : Nat → Bool} {index : Nat} {args : List Argument}
    (h : ∀ i, ignores (index + i) = true) : checkedOfArgs ignores index args = [] := by
  rw [List.eq_nil_iff_forall_not_mem]
  intro m hm
  obtain ⟨i, arg, -, hlooked, -⟩ := mem_checkedOfArgs.1 hm
  rw [h i] at hlooked
  exact absurd hlooked (by simp)

/-- If exactly the arguments without position are ignored, the checked nodes are those at the
positions. -/
theorem checkedOfArgs_eq {slots : List Slot} {rest : Option Position} {args : List Argument}
    {ignores : Nat → Bool} {index : Nat}
    (h : ∀ i, ignores (index + i) = (Slot.positionAt slots rest i).isNone) :
    checkedOfArgs ignores index args =
      (Slot.places slots rest args).flatMap fun place => place.2.checked := by
  fun_induction Slot.places slots rest args generalizing index with
  | case1 => rw [checkedOfArgs, List.flatMap_nil]
  | case2 => exact checkedOfArgs_eq_nil h
  | case3 position first args ih =>
    have hfirst : ignores index = false := h 0
    rw [checkedOfArgs, hfirst, List.flatMap_cons, ih]
    · rfl
    · intro i
      rw [Nat.add_assoc, Nat.add_comm 1 i, h (i + 1)]
      rfl
  | case4 slot slots rest first args ih =>
    have hfirst : ignores index = false := h 0
    rw [checkedOfArgs, hfirst, List.flatMap_cons, ih]
    · rfl
    · intro i
      rw [Nat.add_assoc, Nat.add_comm 1 i, h (i + 1)]
      simp [Slot.positionAt]

/-- A command ignores exactly the arguments that its rule does not look at. -/
theorem ignoresAt_eq {command : Text} {c : Command} {count : Nat}
    (hget : Registry.standard.get? command = some c) (harity : c.arity.accepts count = true)
    (index : Nat) : ignoresAt command count index = (c.rule.positionAt index).isNone := by
  obtain ⟨hmem, hname⟩ := Registry.get?_eq_some hget
  obtain ⟨hcoherent, hdemands⟩ := standard_demands c hmem
  rw [ignoresAt, hget, Option.any_some, harity, Bool.true_and, ← hname, ← hdemands,
    Rule.demands_on hcoherent]
  cases hposition : c.rule.positionAt index with
  | none => rfl
  | some position =>
    rw [Option.elim_some, Option.isNone_some, beq_eq_false_iff_ne]
    exact c.rule.demandAt_ne_ignored index position

/-- The checked nodes of a well-formed node are itself and those at the positions of its rule. -/
theorem Node.checked_eq {n : Node} {c : Command}
    (hget : Registry.standard.get? n.command = some c)
    (harity : c.arity.accepts n.args.length = true) :
    n.checked = n :: (c.rule.places n.args).flatMap fun place => place.2.checked := by
  cases n
  rw [Node.checked, checkedOfArgs_eq]
  · rfl
  · intro i
    rw [Nat.zero_add]
    exact ignoresAt_eq hget harity i

theorem Slot.places_nil (position : Position) (args : List Argument) :
    places [] (some position) args = args.map fun arg => (position, arg) := by
  induction args with
  | nil => rfl
  | cons arg args ih => rw [places, ih, List.map_cons]

/-- What a node keeps is what stands at positions of text to be kept. -/
theorem Node.kept_eq {n : Node} {c : Command}
    (hget : Registry.standard.get? n.command = some c) :
    n.kept = (c.rule.places n.args).flatMap fun place =>
      if place.1 = .verbatim then place.2.literalText else [] := by
  obtain ⟨hmem, hname⟩ := Registry.get?_eq_some hget
  have hverbatim := standard_verbatim c hmem
  rw [hname] at hverbatim
  unfold Node.kept
  split_ifs at hverbatim ⊢ with hlatex
  · rw [Rule.places, hverbatim.1, hverbatim.2, Slot.places_nil, List.flatMap_map]
    rfl
  · refine (List.flatMap_eq_nil_iff.2 ?_).symm
    rintro ⟨position, arg⟩ hplace
    obtain ⟨i, -, hposition⟩ := Slot.mem_places.1 hplace
    refine if_neg ?_
    rintro rfl
    rw [Slot.positionAt, Option.or_eq_some_iff] at hposition
    rcases hposition with hfirst | ⟨-, hrest⟩
    · obtain ⟨slot, hslot, heq⟩ := Option.map_eq_some_iff.1 hfirst
      exact hverbatim.1 slot (List.mem_of_getElem? hslot) heq
    · exact hverbatim.2 hrest

theorem breaks_renderArg {command : Text} {position : Position} {arg : Argument}
    (h : Meets position.demand arg)
    (ih : ∀ child, arg = .expr child →
      breaks (Registry.standard.render child).value = breaks child.verbatim) :
    breaks (Registry.standard.renderArg command position arg).value =
      breaks (if position = .verbatim then arg.literalText else []) +
        breaks (arg.checked.flatMap Node.kept) := by
  cases arg with
  | literal text span =>
    rw [Registry.renderArg_literal, Argument.checked, List.flatMap_nil, breaks_nil, Nat.add_zero]
    split_ifs with hposition
    · rw [hposition]
      rfl
    · exact breaks_renderLiteral hposition h
  | expr child =>
    rw [Registry.renderArg_expr, Argument.checked]
    change breaks (Registry.standard.render child).value = _ + breaks child.verbatim
    rw [ih child rfl, Argument.literalText, ite_self, breaks_nil, Nat.zero_add]

/-- **The line breaks of a rendered tree are those of the literals that are kept as they are.** -/
theorem breaks_render {n : Node} (h : WellFormed n) :
    breaks (Registry.standard.render n).value = breaks n.verbatim := by
  induction n using Node.induction with
  | node n ih =>
    cases h with
    | @intro _ c hget harity hargs =>
      obtain ⟨hmem, hname⟩ := Registry.get?_eq_some hget
      obtain ⟨hcoherent, hdemands⟩ := standard_demands c hmem
      -- the line breaks at a place are those kept there and those kept in the expression there
      have hplaces : ∀ place ∈ c.rule.places n.args,
          breaks (Registry.standard.renderArg n.command place.1 place.2).value =
            breaks (if place.1 = .verbatim then place.2.literalText else []) +
              breaks (place.2.checked.flatMap Node.kept) := by
        rintro ⟨position, arg⟩ hplace
        obtain ⟨i, harg, hposition⟩ := Slot.mem_places.1 hplace
        have hmeets := hargs i arg harg
        rw [← hname, ← hdemands, Rule.meets_on_iff hcoherent] at hmeets
        have hdemand := hmeets.2 position hposition
        refine breaks_renderArg hdemand ?_
        rintro child rfl
        have hne : position.demand ≠ .ignored := by cases position <;> simp [Position.demand]
        exact ih child (List.mem_of_getElem? harg) (hdemand.wellFormed hne)
      rw [breaks_render_known hget, breaks_flatMap_add hplaces, ← Node.kept_eq hget, Node.verbatim,
        Node.checked_eq hget harity, List.flatMap_cons, breaks_append, List.flatMap_assoc]

/-! ### Sources -/

/-- If there is an output, every group has a fragment. -/
theorem Compiler.exists_fragments {c : Compiler} {source : Source} {output : Text}
    (h : (c.compile source).output = some output) :
    ∃ fragments : List Fragment,
      (Group.find source.content).value.map (fun g => (c.compileGroup g).value) =
        fragments.map some := by
  obtain ⟨hparse, -⟩ := (c.isSome_output_iff source).1 (Option.isSome_iff_exists.2 ⟨output, h⟩)
  rw [c.reports_parse, List.append_eq_nil_iff, List.flatMap_eq_nil_iff] at hparse
  have hread := hparse.2
  generalize (Group.find source.content).value = groups at hread ⊢
  induction groups with
  | nil => exact ⟨[], rfl⟩
  | cons g groups ih =>
    obtain ⟨fragments, hfragments⟩ := ih fun g' hg' => hread g' (List.mem_cons_of_mem g hg')
    obtain ⟨node, hnode, -⟩ := Node.read_whole c.maxDepth c.maxDepth _ _
      (hread g List.mem_cons_self)
    refine ⟨⟨node, (c.registry.render node).value⟩ :: fragments, ?_⟩
    have hvalue : (c.readGroup g).value = some node := hnode
    rw [List.map_cons, hfragments, c.value_compileGroup, hvalue]
    rfl

theorem breaks_lines {fragments : List Fragment}
    (h : ∀ f ∈ fragments, breaks f.latex = breaks f.node.verbatim) :
    breaks (fragments.flatMap fun f => f.latex ++ ['\n']) =
      fragments.length + breaks (fragments.flatMap fun f => f.node.verbatim) := by
  induction fragments with
  | nil => rfl
  | cons f fragments ih =>
    have hend : breaks ['\n'] = 1 := by decide
    have hlater := ih fun f' hf' => h f' (List.mem_cons_of_mem f hf')
    rw [List.flatMap_cons, List.flatMap_cons, breaks_append, breaks_append, breaks_append, hend,
      hlater, h f List.mem_cons_self, List.length_cons]
    omega

/-- **One line for each group, and the lines that `latex` keeps.** An output has the fragments of
the groups in order, one for each group, and a line break behind each. The line breaks inside a
fragment are those of the literals of `latex` in its tree. -/
theorem output_lines (limit : Nat) (source : Source) {output : Text}
    (houtput : (Compiler.compile { maxDepth := limit } source).output = some output) :
    ∃ fragments : List Fragment,
      (Group.find source.content).value.map
          (fun g => (Compiler.compileGroup { maxDepth := limit } g).value) =
        fragments.map some ∧
      output = fragments.flatMap (fun f => f.latex ++ ['\n']) ∧
      (∀ f ∈ fragments, breaks f.latex = breaks f.node.verbatim) ∧
      breaks output = (Group.find source.content).value.length +
        breaks (fragments.flatMap fun f => f.node.verbatim) := by
  obtain ⟨fragments, hfragments⟩ := Compiler.exists_fragments houtput
  obtain ⟨hparse, hrender⟩ := (Compiler.isSome_output_iff _ source).1
    (Option.isSome_iff_exists.2 ⟨output, houtput⟩)
  have hvalue := Compiler.value_fragments { maxDepth := limit } source.content
  rw [hfragments] at hvalue
  have hlines : output = fragments.flatMap fun f => f.latex ++ ['\n'] := by
    rw [Compiler.output_compile] at houtput
    split_ifs at houtput
    rw [← Option.some.inj houtput, hvalue, Compiler.lines, List.flatMap_map]
  have hkept : ∀ f ∈ fragments, breaks f.latex = breaks f.node.verbatim := by
    intro f hf
    obtain ⟨hnode, hlatex⟩ := Compiler.mem_fragments { maxDepth := limit } source.content
      (hvalue ▸ List.mem_map_of_mem hf)
    rw [hlatex]
    exact breaks_render ((reports_render_iff f.node (droppedArgs_of_parse hparse f.node hnode)).1
      (hrender f.node hnode))
  refine ⟨fragments, hfragments, hlines, hkept, ?_⟩
  have hcount := congrArg List.length hfragments
  rw [List.length_map, List.length_map] at hcount
  rw [hlines, breaks_lines hkept, hcount]

/-- A line break between literals is not written, and one inside the parentheses of a literal is. -/
theorem output_lines_kept :
    ∃ fragments : List Fragment,
      fragments.length = 2 ∧
      "\\left(1+2\\right)\nx(a\n\nb) c\n".toList =
        fragments.flatMap (fun f => f.latex ++ ['\n']) ∧
      (∀ f ∈ fragments, breaks f.latex = breaks f.node.verbatim) ∧
      breaks (fragments.flatMap fun f => f.node.verbatim) = 2 := by
  have houtput : (Compiler.compile { maxDepth := 1 }
      ⟨"input", "(add 1\n2) (latex x(a\n\nb)\nc)".toList⟩).output =
        some "\\left(1+2\\right)\nx(a\n\nb) c\n".toList := by decide +kernel
  have hgroups : (Group.find "(add 1\n2) (latex x(a\n\nb)\nc)".toList).value.length = 2 := by
    decide +kernel
  obtain ⟨fragments, hfragments, hlines, hkept, htotal⟩ := output_lines 1 _ houtput
  have hcount := congrArg List.length hfragments
  rw [List.length_map, List.length_map, hgroups] at hcount
  have hbreaks : breaks "\\left(1+2\\right)\nx(a\n\nb) c\n".toList = 4 := by decide +kernel
  rw [hgroups, hbreaks] at htotal
  exact ⟨fragments, hcount.symm, hlines, hkept, by omega⟩

/-- A single group whose output has two lines. -/
theorem output_of_broken_literal :
    (Group.find "(latex x(a\nb))".toList).value.length = 1 ∧
    (Compiler.compile {} ⟨"input", "(latex x(a\nb))".toList⟩).output =
      some "x(a\nb)\n".toList ∧
    breaks "x(a\nb)\n".toList = 2 := by
  refine ⟨?_, ?_, ?_⟩ <;> decide +kernel

end GraphTex
