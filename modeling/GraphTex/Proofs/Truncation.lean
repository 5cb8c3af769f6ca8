import GraphTex.Proofs.Depths

/-!
# The nesting limit

Expressions that nest deeper than the limit are not read. The limit changes nothing else: what is
read under a small limit is what is read under a larger one, without the expressions among the
arguments of the nodes at the deepest level allowed (`Node.truncate`). Each of these is reported,
and so are tokens in parentheses there that could not be read anyway. If nothing is too deep, both
limits give the same tree and the same reports (`read_truncated`).
-/

namespace GraphTex

/-! ### Truncated trees -/

/-- The argument is an expression. -/
def Argument.isExpr (arg : Argument) : Bool := arg.node?.isSome

/-- The argument with its expression changed, if it is one. -/
def Argument.mapNode (f : Node → Node) : Argument → Argument
  | .literal text span => .literal text span
  | .expr node => .expr (f node)

/-- The tree without the expressions among the arguments of the nodes at a depth. A node that lost
one is marked. -/
def Node.truncate : Nat → Node → Node
  | 0, n => n
  | 1, n =>
    { n with
      args := n.args.filter (!·.isExpr)
      droppedArgs := n.droppedArgs || n.args.any Argument.isExpr }
  | depth + 2, n => { n with args := n.args.map (Argument.mapNode (Node.truncate (depth + 1))) }

section Truncate

variable {limit limit' levels levels' : Nat}

/-- With no level left, all expressions are missing. -/
theorem Argument.value_read_deepest (limit limit' levels' : Nat) (t : Token) :
    (Argument.read (Node.read limit 0) t).value =
      (Argument.read (Node.read limit' levels') t).value.filter (!·.isExpr) := by
  rcases t.shape with hliteral | ⟨hopen, hcontent⟩ | ⟨content, htext⟩
  · rw [Argument.read_literal hliteral, Argument.read_literal hliteral]
    rfl
  · rw [Argument.read_unclosed hopen hcontent, Argument.read_unclosed hopen hcontent]
    rfl
  · rw [Argument.read_expr htext, Argument.read_expr htext, Node.read_zero]
    cases (Node.read limit' levels' (t.start + 1) content).value <;> rfl

/-- What the levels left read is what more levels read, truncated. -/
def Truncates (limit levels limit' levels' : Nat) : Prop :=
  ∀ offset text, (Node.read limit (levels + 1) offset text).value =
    (Node.read limit' (levels' + 1) offset text).value.map (Node.truncate (levels + 1))

theorem Argument.value_read_truncate (h : Truncates limit levels limit' levels') (t : Token) :
    (Argument.read (Node.read limit (levels + 1)) t).value =
      (Argument.read (Node.read limit' (levels' + 1)) t).value.map
        (Argument.mapNode (Node.truncate (levels + 1))) := by
  rcases t.shape with hliteral | ⟨hopen, hcontent⟩ | ⟨content, htext⟩
  · simp [Argument.read_literal hliteral, Argument.mapNode]
  · simp [Argument.read_unclosed hopen hcontent]
  · rw [Argument.read_expr htext, Argument.read_expr htext, h, Option.map_map, Option.map_map]
    rfl

/-- Dropping the expressions among the arguments drops an argument more for each of them. -/
theorem any_isNone_filter {α : Type} (f : α → Option Argument) (as : List α) :
    (as.any fun a => ((f a).filter (!·.isExpr)).isNone) =
      ((as.any fun a => (f a).isNone) || (as.filterMap f).any Argument.isExpr) := by
  induction as with
  | nil => rfl
  | cons a as ih =>
    rw [List.any_cons, List.any_cons, ih]
    cases hf : f a with
    | none => simp [hf]
    | some arg => cases hexpr : arg.isExpr <;> simp [hf, hexpr]

/-- **Fewer levels read a truncated tree**, or no tree where more levels read none. -/
theorem Node.truncates (limit limit' : Nat) (h : levels ≤ levels') :
    Truncates limit levels limit' levels' := by
  induction levels generalizing levels' with
  | zero =>
    intro offset text
    rcases Node.report_or_command offset text with ⟨_, _, -, hnone⟩ | ⟨head, rest, htokens, hopen⟩
    · rw [hnone, hnone, Option.map_none]
    · rw [Node.read_command htokens hopen, Node.read_command htokens hopen, Option.map_some,
        Node.truncate]
      simp only [Argument.value_read_deepest limit limit' levels', List.filter_filterMap,
        any_isNone_filter]
  | succ levels ih =>
    intro offset text
    obtain ⟨levels', rfl⟩ : ∃ l, levels' = l + 1 := ⟨levels' - 1, by omega⟩
    have hargs := Argument.value_read_truncate (ih (Nat.le_of_succ_le_succ h))
    rcases Node.report_or_command offset text with ⟨_, _, -, hnone⟩ | ⟨head, rest, htokens, hopen⟩
    · rw [hnone, hnone, Option.map_none]
    · rw [Node.read_command htokens hopen, Node.read_command htokens hopen, Option.map_some,
        Node.truncate]
      simp only [hargs, List.map_filterMap, Option.isNone_map]

end Truncate

/-! ### What is too deep -/

/-- The report is on an expression below the deepest level allowed. -/
def Report.isTooDeep (r : Report) : Bool :=
  match r.fault with
  | .nestingTooDeep _ => true
  | _ => false

/-- The tokens behind the command of a node that is read from a text which stands at `offset`. -/
def Node.argumentTokens (offset : Nat) (text : Text) (m : Node) : List Token :=
  (text.sliceFrom? offset m.span).elim [] fun content =>
    (Token.split m.span.start content).value.tail

/-- The report on a token in parentheses that nests deeper than the limit, at its content. -/
def Token.tooDeep? (limit : Nat) (t : Token) : Option Report :=
  t.content?.map fun content => ⟨.nestingTooDeep limit, .ofText (t.start + 1) content⟩

theorem Token.tooDeep_split (offset : Nat) (text : Text) :
    (Token.split offset text).reports.filter Report.isTooDeep = [] := by
  refine List.filter_eq_nil_iff.2 fun r hr => ?_
  rw [Report.isTooDeep, Token.fault_of_mem_split hr]
  decide

theorem Argument.tooDeep_deepest (limit : Nat) (t : Token) :
    (Argument.read (Node.read limit 0) t).reports.filter Report.isTooDeep =
      (t.tooDeep? limit).toList := by
  rcases t.shape with hliteral | ⟨hopen, hcontent⟩ | ⟨content, htext⟩
  · have hcontent : t.content? = none := by
      rw [Option.eq_none_iff_forall_ne_some]
      intro content htext
      rw [Token.content?_eq_some_iff] at htext
      exact Token.not_isParenthesized_iff.1 hliteral (by rw [htext, List.head?_cons])
    rw [Argument.read_literal hliteral, Token.tooDeep?, hcontent]
    rfl
  · rw [Argument.read_unclosed hopen hcontent, Token.tooDeep?, hcontent]
    rfl
  · rw [Argument.read_expr htext, Node.read_zero, Token.tooDeep?,
      Token.content?_eq_some_iff.2 htext]
    rfl

variable {limit levels offset : Nat} {text : Text}

/-- A text without command has nothing in it that is too deep. -/
theorem tooDeep_of_no_command {found : Option Text} {span : Span} :
    ((Token.split offset text).reports ++ [(⟨.commandExpected found, span⟩ : Report)]).filter
      Report.isTooDeep = [] := by
  rw [List.filter_append, Token.tooDeep_split]
  rfl

theorem Node.tooDeep_command {head : Token} {rest : List Token}
    (htokens : (Token.split offset text).value = head :: rest)
    (hopen : head.isParenthesized = false) :
    (Node.read limit (levels + 1) offset text).reports.filter Report.isTooDeep =
      rest.flatMap fun t =>
        (Argument.read (Node.read limit levels) t).reports.filter Report.isTooDeep := by
  rw [Node.read_command htokens hopen, List.filter_append, Token.tooDeep_split, List.nil_append,
    List.filter_flatMap]

/-- The tokens behind the command of a node are found again in every text around it. -/
theorem Node.argumentTokens_of_read {n : Node} {source : Text} {start : Nat}
    (hpiece : source.HasPiece start text offset)
    (h : (Node.read limit (levels + 1) offset text).value = some n) :
    n.argumentTokens start source = (Token.split offset text).value.tail := by
  rw [Node.argumentTokens, Node.span_of_read h, hpiece.sliceFrom?_eq]
  rfl

/-- The expressions among the arguments, token by token. -/
theorem Node.children_of_read {head : Token} {rest : List Token} {n : Node}
    (htokens : (Token.split offset text).value = head :: rest)
    (h : (Node.read limit (levels + 1) offset text).value = some n) :
    n.children = rest.flatMap fun t =>
      ((Argument.read (Node.read limit levels) t).value.bind Argument.node?).toList := by
  obtain ⟨head', rest', htokens', -, rfl⟩ := Node.read_eq_some h
  obtain ⟨-, rfl⟩ := List.cons.inj (htokens.symm.trans htokens')
  rw [Node.children, List.filterMap_filterMap, List.filterMap_eq_flatMap_toList]

/-- The reports on what is too deep, through the nodes at the deepest level, in a text that is a
piece of a source. -/
theorem Node.tooDeep_read {source : Text} {start : Nat}
    (hpiece : source.HasPiece start text offset) :
    (Node.read limit (levels + 1) offset text).reports.filter Report.isTooDeep =
      (Node.read limit (levels + 1) offset text).value.toList.flatMap fun n =>
        (n.nodesAt (levels + 1)).flatMap fun m =>
          (m.argumentTokens start source).filterMap (Token.tooDeep? limit) := by
  induction levels generalizing offset text with
  | zero =>
    rcases Node.report_or_command offset text with ⟨_, _, -, hnone⟩ | ⟨head, rest, htokens, hopen⟩
    · rw [hnone, tooDeep_of_no_command]
      rfl
    · obtain ⟨n, hn⟩ : ∃ n, (Node.read limit 1 offset text).value = some n :=
        ⟨_, congrArg Logged.value (Node.read_command htokens hopen)⟩
      have hargs := Node.argumentTokens_of_read hpiece hn
      rw [htokens, List.tail_cons] at hargs
      rw [Node.tooDeep_command htokens hopen, hn, Option.toList_some, List.flatMap_singleton,
        Node.nodesAt, List.flatMap_singleton, hargs, List.filterMap_eq_flatMap_toList]
      exact List.flatMap_congr fun t _ => Argument.tooDeep_deepest limit t
  | succ levels ih =>
    rcases Node.report_or_command offset text with ⟨_, _, -, hnone⟩ | ⟨head, rest, htokens, hopen⟩
    · rw [hnone, tooDeep_of_no_command]
      rfl
    · obtain ⟨n, hn⟩ : ∃ n, (Node.read limit (levels + 2) offset text).value = some n :=
        ⟨_, congrArg Logged.value (Node.read_command htokens hopen)⟩
      rw [Node.tooDeep_command htokens hopen, hn, Option.toList_some, List.flatMap_singleton,
        Node.nodesAt, Node.children_of_read htokens hn, List.flatMap_assoc, List.flatMap_assoc]
      refine List.flatMap_congr fun t ht => ?_
      rcases t.shape with hliteral | ⟨hparen, hcontent⟩ | ⟨content, htext⟩
      · rw [Argument.read_literal hliteral]
        rfl
      · rw [Argument.read_unclosed hparen hcontent]
        rfl
      · have htoken : t ∈ (Token.split offset text).value := by simp [htokens, ht]
        have hcontent := (hpiece.trans (Token.hasPiece_of_mem_split htoken)).trans
          (Token.hasPiece_content htext)
        rw [Argument.read_expr htext, ih hcontent]
        cases (Node.read limit (levels + 1) (t.start + 1) content).value with
        | none => rfl
        | some child => simp [Argument.node?]

/-- Reading depends only on what is read from the tokens behind the command. -/
theorem Node.read_congr {limit' levels' : Nat}
    (h : ∀ t ∈ (Token.split offset text).value.tail,
      Argument.read (Node.read limit levels) t = Argument.read (Node.read limit' levels') t) :
    Node.read limit (levels + 1) offset text = Node.read limit' (levels' + 1) offset text := by
  rcases Node.report_or_command offset text with ⟨_, _, -, hnone⟩ | ⟨head, rest, htokens, hopen⟩
  · rw [hnone, hnone]
  · rw [htokens] at h
    have hmap : rest.map (Argument.read (Node.read limit levels)) =
        rest.map (Argument.read (Node.read limit' levels')) := List.map_congr_left h
    have hargs := congrArg (List.filterMap Logged.value) hmap
    have hdropped := congrArg (fun reads => reads.any fun read => read.value.isNone) hmap
    have hreports := congrArg (List.flatMap Logged.reports) hmap
    simp only [List.filterMap_map, List.any_map, List.flatMap_map, Function.comp_def]
      at hargs hdropped hreports
    rw [Node.read_command htokens hopen, Node.read_command htokens hopen, hargs, hdropped, hreports]

/-- **If nothing is too deep, more levels read the same** and report the same. -/
theorem Node.read_eq_of_tooDeep {limit' levels' : Nat} (hle : levels ≤ levels')
    (h : (Node.read limit levels offset text).reports.filter Report.isTooDeep = []) :
    Node.read limit levels offset text = Node.read limit' levels' offset text := by
  induction levels generalizing levels' offset text with
  | zero =>
    rw [Node.read_zero] at h
    cases h
  | succ levels ih =>
    obtain ⟨levels', rfl⟩ : ∃ l, levels' = l + 1 := ⟨levels' - 1, by omega⟩
    rcases Node.report_or_command offset text with ⟨_, _, -, hnone⟩ | ⟨head, rest, htokens, hopen⟩
    · rw [hnone, hnone]
    · rw [Node.tooDeep_command htokens hopen, List.flatMap_eq_nil_iff] at h
      refine Node.read_congr fun t ht => ?_
      rw [htokens] at ht
      have ht := h t ht
      rcases t.shape with hliteral | ⟨hparen, hcontent⟩ | ⟨content, htext⟩
      · rw [Argument.read_literal hliteral, Argument.read_literal hliteral]
      · rw [Argument.read_unclosed hparen hcontent, Argument.read_unclosed hparen hcontent]
      · rw [Argument.read_expr htext] at ht
        rw [Argument.read_expr htext, Argument.read_expr htext, ih (Nat.le_of_succ_le_succ hle) ht]

/-- **The nesting limit truncates and does nothing else.** Under a limit, reading gives what it
gives under a larger one, truncated at the depth of the limit, and no node is deeper. Each token in
parentheses among the arguments of a node at this depth is reported once, at its content, and these
are all reports of this kind. If there are none, the larger limit gives the same tree and the same
reports. -/
theorem read_truncated (offset : Nat) (text : Text) {limit limit' : Nat} (hpos : 1 ≤ limit)
    (hle : limit ≤ limit') :
    (Compiler.readExpression { maxDepth := limit } offset text).value =
        (Compiler.readExpression { maxDepth := limit' } offset text).value.map
          (Node.truncate limit) ∧
      (∀ n, (Compiler.readExpression { maxDepth := limit } offset text).value = some n →
        ∀ depth, limit < depth → n.nodesAt depth = []) ∧
      (Compiler.readExpression { maxDepth := limit } offset text).reports.filter
          Report.isTooDeep =
        ((Compiler.readExpression { maxDepth := limit } offset text).value.toList.flatMap fun n =>
          (n.nodesAt limit).flatMap fun m =>
            (m.argumentTokens offset text).filterMap (Token.tooDeep? limit)) ∧
      ((Compiler.readExpression { maxDepth := limit } offset text).reports.filter
          Report.isTooDeep = [] →
        Compiler.readExpression { maxDepth := limit } offset text =
          Compiler.readExpression { maxDepth := limit' } offset text) := by
  obtain ⟨levels, rfl⟩ : ∃ l, limit = l + 1 := ⟨limit - 1, by omega⟩
  obtain ⟨levels', rfl⟩ : ∃ l, limit' = l + 1 := ⟨limit' - 1, by omega⟩
  simp only [Compiler.readExpression]
  refine ⟨?_, ?_, ?_, ?_⟩
  · exact Node.truncates _ _ (by omega) offset text
  · intro n hn depth hdepth
    rw [List.eq_nil_iff_forall_not_mem]
    intro m hm
    obtain ⟨left, -, hlevels, -⟩ := Node.exists_descent hn hm
    omega
  · exact Node.tooDeep_read (.refl text offset)
  · exact Node.read_eq_of_tooDeep hle

/-- Below the limit an expression that the larger limit reads and one that no limit reads, and at
the end a token that is not closed. -/
theorem read_truncated_unclosed :
    (Compiler.readExpression { maxDepth := 2 } 7 "é (b (c x) () 2) (d".toList).value =
        (Compiler.readExpression { maxDepth := 4 } 7 "é (b (c x) () 2) (d".toList).value.map
          (Node.truncate 2) ∧
      (Compiler.readExpression { maxDepth := 4 } 7 "é (b (c x) () 2) (d".toList).value.map
        Node.pretty = some "(é (b (c x) 2))".toList ∧
      (Compiler.readExpression { maxDepth := 2 } 7 "é (b (c x) () 2) (d".toList).reports.filter
          Report.isTooDeep =
        [⟨.nestingTooDeep 2, ⟨14, 17⟩⟩, ⟨.nestingTooDeep 2, ⟨20, 20⟩⟩] := by
  obtain ⟨hvalue, -, hreports, -⟩ := read_truncated 7 "é (b (c x) () 2) (d".toList
    (show 1 ≤ 2 by decide) (show 2 ≤ 4 by decide)
  exact ⟨hvalue, by decide +kernel, hreports.trans (by decide +kernel)⟩

end GraphTex
