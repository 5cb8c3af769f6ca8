import GraphTex.Proofs.Compiling
import GraphTex.Proofs.Reading
import GraphTex.Proofs.Rendering

/-!
# Text at another place

Work on a text depends on its offset only through the spans: at an offset that is larger by `k`,
the same is found, each span moved by `k`. This is shown of the scans for parentheses, of tokens,
groups, reading, and of rendering a tree, where the spans may change in any way.
-/

namespace GraphTex

/-- The span moved by a number of bytes. -/
def Span.shift (k : Nat) (s : Span) : Span := ⟨s.start + k, s.stop + k⟩

/-- The report with its span changed. -/
def Report.mapSpan (f : Span → Span) (r : Report) : Report := ⟨r.fault, f r.span⟩

/-- The report moved by a number of bytes. -/
abbrev Report.shift (k : Nat) : Report → Report := Report.mapSpan (Span.shift k)

/-- The token moved by a number of bytes. -/
def Token.shift (k : Nat) (t : Token) : Token := ⟨t.start + k, t.text⟩

/-- The group moved by a number of bytes. -/
def Group.shift (k : Nat) (g : Group) : Group := ⟨g.start + k, g.content⟩

theorem Span.ofText_shift (offset k : Nat) (t : Text) :
    Span.ofText (offset + k) t = (Span.ofText offset t).shift k := by
  simp only [Span.ofText, Span.shift, Span.mk.injEq, true_and]
  omega

theorem Span.normalize_shift (k : Nat) (s : Span) :
    (s.shift k).normalize = s.normalize.shift k := by
  simp only [Span.normalize, Span.length, Span.shift, Span.mk.injEq, true_and]
  omega

@[simp] theorem Token.text_shift (k : Nat) (t : Token) : (t.shift k).text = t.text := rfl

theorem Token.span_shift (k : Nat) (t : Token) : (t.shift k).span = t.span.shift k :=
  Span.ofText_shift t.start k t.text

/-! ### Parentheses -/

namespace Paren

theorem mismatch_shift (offset k : Nat) : mismatch (offset + k) = (mismatch offset).shift k := by
  simp only [mismatch, Report.mapSpan, Span.ofByte, Span.shift, Report.mk.injEq, Span.mk.injEq,
    true_and]
  omega

theorem strays_shift (t : Text) (d offset k : Nat) :
    strays d (offset + k) t = (strays d offset t).map (Report.shift k) := by
  induction t generalizing d offset with
  | nil => rfl
  | cons c t ih =>
    have hnext : offset + k + c.utf8Size = offset + c.utf8Size + k := by omega
    rw [strays, strays, hnext, ih, mismatch_shift]
    split_ifs <;> rfl

/-- Outside all parentheses it does not matter where the outermost one was. -/
theorem unclosed?_zero (t : Text) (o o' offset : Nat) :
    unclosed? 0 o offset t = unclosed? 0 o' offset t := by
  cases t with
  | nil => rfl
  | cons c t => rw [unclosed?, unclosed?, if_pos rfl, if_pos rfl]

theorem unclosed?_shift (t : Text) (d o offset k : Nat) :
    unclosed? d (o + k) (offset + k) t = (unclosed? d o offset t).map (· + k) := by
  induction t generalizing d o offset with
  | nil =>
    rw [unclosed?, unclosed?]
    split_ifs <;> rfl
  | cons c t ih =>
    have hnext : offset + k + c.utf8Size = offset + c.utf8Size + k := by omega
    have hfirst : (if d = 0 then offset + k else o + k) = (if d = 0 then offset else o) + k := by
      split_ifs <;> rfl
    rw [unclosed?, unclosed?, hnext, hfirst, ih]

end Paren

/-! ### Tokens -/

namespace Token

theorem ofPiece_shift (offset k : Nat) (piece : Text) (later : List Token) :
    ofPiece (offset + k) (piece, later.map (Token.shift k)) =
      (ofPiece offset (piece, later)).map (Token.shift k) := by
  cases piece <;> rfl

theorem scan_shift (t : Text) (d offset k : Nat) :
    scan d (offset + k) t =
      ((scan d offset t).1, (scan d offset t).2.map (Token.shift k)) := by
  induction t generalizing d offset with
  | nil => rfl
  | cons c t ih =>
    have hnext : offset + k + c.utf8Size = offset + c.utf8Size + k := by omega
    rw [scan, scan, hnext]
    split_ifs with hcut
    · rw [ih, ofPiece_shift]
    · rw [ih]

theorem split_shift (t : Text) (offset k : Nat) :
    split (offset + k) t =
      ⟨(split offset t).value.map (Token.shift k),
        (split offset t).reports.map (Report.shift k)⟩ := by
  rw [split, split, scan_shift, ofPiece_shift, Paren.strays_shift, Span.ofText_shift]
  split_ifs <;> simp [Report.mapSpan]

end Token

/-! ### Reading -/

/-- A way of reading that depends on the offset only through spans. -/
def ReadsAnywhere (descend : Nat → Text → Logged (Option Node)) : Prop :=
  ∀ offset k text, descend (offset + k) text =
    ⟨(descend offset text).value.map (Node.mapSpans (Span.shift k)),
      (descend offset text).reports.map (Report.shift k)⟩

theorem Argument.read_shift {descend : Nat → Text → Logged (Option Node)}
    (hdescend : ReadsAnywhere descend) (t : Token) (k : Nat) :
    Argument.read descend (t.shift k) =
      ⟨(Argument.read descend t).value.map (Argument.mapSpans (Span.shift k)),
        (Argument.read descend t).reports.map (Report.shift k)⟩ := by
  rcases t.shape with hliteral | ⟨hopen, hcontent⟩ | ⟨content, htext⟩
  · have hliteral' : (t.shift k).isParenthesized = false := hliteral
    rw [Argument.read_literal hliteral', Argument.read_literal hliteral, Token.span_shift,
      Option.map_some, Argument.mapSpans_literal]
    rfl
  · have hopen' : (t.shift k).isParenthesized = true := hopen
    have hcontent' : (t.shift k).content? = none := hcontent
    rw [Argument.read_unclosed hopen' hcontent', Argument.read_unclosed hopen hcontent,
      Token.span_shift]
    rfl
  · have htext' : (t.shift k).text = '(' :: (content ++ [')']) := htext
    have hstart : (t.shift k).start + 1 = t.start + 1 + k := by
      simp only [Token.shift]
      omega
    rw [Argument.read_expr htext', Argument.read_expr htext, hstart, hdescend]
    simp [Option.map_map, Function.comp_def]

theorem Node.read_shift (limit levels : Nat) : ReadsAnywhere (Node.read limit levels) := by
  induction levels with
  | zero =>
    intro offset k text
    rw [Node.read_zero, Node.read_zero, Span.ofText_shift]
    rfl
  | succ levels ih =>
    intro offset k text
    -- The tokens move with the text and keep their texts, so both readings take the same branch.
    have hsplit := Token.split_shift text offset k
    cases htokens : (Token.split offset text).value with
    | nil =>
      have htokens' : (Token.split (offset + k) text).value = [] := by rw [hsplit, htokens]; rfl
      rw [Node.read_empty htokens', Node.read_empty htokens, hsplit, Span.ofText_shift]
      simp [Report.mapSpan]
    | cons head rest =>
      have htokens' : (Token.split (offset + k) text).value =
          head.shift k :: rest.map (Token.shift k) := by rw [hsplit, htokens]; rfl
      cases hopen : head.isParenthesized with
      | true =>
        have hopen' : (head.shift k).isParenthesized = true := hopen
        rw [Node.read_enclosed htokens' hopen', Node.read_enclosed htokens hopen, hsplit,
          Token.span_shift]
        simp [Report.mapSpan, Token.shift]
      | false =>
        have hopen' : (head.shift k).isParenthesized = false := hopen
        rw [Node.read_command htokens' hopen', Node.read_command htokens hopen, hsplit,
          Token.span_shift, Span.ofText_shift]
        simp only [Option.map_some, Node.mapSpans_eq, List.filterMap_map, List.flatMap_map,
          List.any_map, Function.comp_def, Argument.read_shift ih, List.map_append,
          List.map_flatMap, List.map_filterMap, Option.isNone_map, Token.text_shift]

/-! ### Rendering -/

section Rendering

variable (f : Span → Span)

theorem Argument.isNumber_mapSpans (arg : Argument) :
    (arg.mapSpans f).isNumber = arg.isNumber := by
  cases arg with
  | literal text span => rw [Argument.mapSpans_literal, Argument.isNumber, Argument.isNumber]
  | expr n =>
    rw [Argument.mapSpans_expr, Argument.isNumber, Argument.isNumber, Node.command_mapSpans]

theorem Argument.isCallOf_mapSpans (command : Text) (arg : Argument) :
    (arg.mapSpans f).isCallOf command = arg.isCallOf command := by
  cases arg with
  | literal text span => rw [Argument.mapSpans_literal, Argument.isCallOf, Argument.isCallOf]
  | expr n =>
    rw [Argument.mapSpans_expr, Argument.isCallOf, Argument.isCallOf, Node.command_mapSpans]

theorem Requirement.violations_mapSpans (req : Requirement) (command : Text)
    (args : List Argument) :
    req.violations command (args.map (Argument.mapSpans f)) =
      (req.violations command args).map (Report.mapSpan f) := by
  cases req with
  | noNumbers =>
    simp [Requirement.violations, List.filter_map, Function.comp_def, Argument.isNumber_mapSpans,
      Report.mapSpan]
  | paramsAt i =>
    cases hi : args[i]? with
    | none => simp [Requirement.violations, hi]
    | some arg =>
      simp only [Requirement.violations, List.getElem?_map, hi, Option.map_some,
        Option.toList_some, List.filter_singleton, Argument.isCallOf_mapSpans]
      cases arg.isCallOf "params".toList <;> simp [Report.mapSpan]

theorem Position.renderLiteral_mapSpan (position : Position) (text : Text) (span : Span) :
    position.renderLiteral text (f span) =
      ⟨(position.renderLiteral text span).value,
        (position.renderLiteral text span).reports.map (Report.mapSpan f)⟩ := by
  obtain ⟨written, hnone | ⟨fault, hone, -⟩⟩ := position.renderLiteral_cases text
  · rw [hnone, hnone]
    rfl
  · rw [hone, hone]
    rfl

theorem Position.misuse_mapSpan (position : Position) (command : Text) (span : Span) :
    position.misuse command (f span) = (position.misuse command span).map (Report.mapSpan f) := by
  cases position <;> rfl

theorem Registry.renderArgs_mapSpans {r : Registry} {command : Text} {args : List Argument}
    (hargs : ∀ arg ∈ args, ∀ position, r.renderArg command position (arg.mapSpans f) =
      ⟨(r.renderArg command position arg).value,
        (r.renderArg command position arg).reports.map (Report.mapSpan f)⟩)
    (slots : List Slot) (rest : Option Position) :
    r.renderArgs command slots rest (args.map (Argument.mapSpans f)) =
      ⟨(r.renderArgs command slots rest args).value,
        (r.renderArgs command slots rest args).reports.map (Report.mapSpan f)⟩ := by
  fun_induction Slot.places slots rest args with
  | case1 slots rest =>
    rw [List.map_nil, Registry.renderArgs]
    rfl
  | case2 first args =>
    rw [List.map_cons, Registry.renderArgs, Registry.renderArgs]
    rfl
  | case3 position first args ih =>
    have hfirst := hargs first List.mem_cons_self position
    have hlater := ih fun arg harg => hargs arg (List.mem_cons_of_mem first harg)
    rw [List.map_cons, Registry.renderArgs, Registry.renderArgs, hfirst, hlater]
    simp [bind, pure]
  | case4 slot slots rest first args ih =>
    have hfirst := hargs first List.mem_cons_self slot.position
    have hlater := ih fun arg harg => hargs arg (List.mem_cons_of_mem first harg)
    rw [List.map_cons, Registry.renderArgs, Registry.renderArgs, hfirst, hlater]
    simp [bind, pure]

/-- **Rendering looks at no span.** A tree with other spans is rendered as the same text, and the
reports on it have the other spans. -/
theorem Registry.render_mapSpans (r : Registry) (n : Node) :
    r.render (n.mapSpans f) =
      ⟨(r.render n).value, (r.render n).reports.map (Report.mapSpan f)⟩ := by
  induction n using Node.induction with
  | node n ih =>
    have hargs : ∀ arg ∈ n.args, ∀ position,
        r.renderArg n.command position (arg.mapSpans f) =
          ⟨(r.renderArg n.command position arg).value,
            (r.renderArg n.command position arg).reports.map (Report.mapSpan f)⟩ := by
      intro arg harg position
      cases arg with
      | literal text span =>
        rw [Argument.mapSpans_literal, Registry.renderArg_literal, Registry.renderArg_literal]
        exact position.renderLiteral_mapSpan f text span
      | expr child =>
        rw [Argument.mapSpans_expr, Registry.renderArg_expr, Registry.renderArg_expr, ih child harg,
          Node.span_mapSpans, Position.misuse_mapSpan, List.map_append]
    cases hget : r.get? n.command with
    | none =>
      have hget' : r.get? (n.mapSpans f).command = none := by rw [Node.command_mapSpans, hget]
      rw [Registry.render_unknown hget', Registry.render_unknown hget, Node.mapSpans_eq]
      rfl
    | some c =>
      have hget' : r.get? (n.mapSpans f).command = some c := by rw [Node.command_mapSpans, hget]
      rw [Registry.render_known hget', Registry.render_known hget, Node.mapSpans_eq]
      simp only [Registry.renderArgs_mapSpans f hargs, List.map_append, List.length_map]
      have harity : ∀ count span, c.arityReports count (f span) =
          (c.arityReports count span).map (Report.mapSpan f) := by
        intro count span
        unfold Command.arityReports
        split_ifs <;> rfl
      have hrequired : (c.rule.requirement.elim [] (·.violations n.command
          (n.args.map (Argument.mapSpans f)))) =
            (c.rule.requirement.elim [] (·.violations n.command n.args)).map (Report.mapSpan f) := by
        cases c.rule.requirement with
        | none => rfl
        | some req => exact req.violations_mapSpans f n.command n.args
      rw [hrequired, harity]
      split_ifs <;> rfl

end Rendering

/-! ### Groups -/

namespace Group

theorem contentSpan_shift (k : Nat) (g : Group) :
    (g.shift k).contentSpan = g.contentSpan.shift k := by
  have hstart : g.start + k + 1 = g.start + 1 + k := by omega
  rw [contentSpan, contentSpan, shift, hstart, Span.ofText_shift]

/-- Both scans move together, as each one calls the other. -/
theorem outside_inside_shift (t : Text) (k : Nat) :
    (∀ offset, outside (offset + k) t = (outside offset t).map (Group.shift k)) ∧
      ∀ d offset, inside d (offset + k) t =
        (inside d offset t).map fun (content, later) => (content, later.map (Group.shift k)) := by
  induction t with
  | nil => exact ⟨fun _ => rfl, fun _ _ => rfl⟩
  | cons c t ih =>
    obtain ⟨ihout, ihin⟩ := ih
    have hnext : ∀ offset size : Nat, offset + k + size = offset + size + k := by
      intro offset size
      omega
    constructor
    · intro offset
      rw [outside, outside, hnext, hnext, ihin, ihout]
      split_ifs
      · cases inside 0 (offset + 1) t <;> rfl
      · rfl
    · intro d offset
      rw [inside, inside, hnext, hnext, ihin, ihout]
      split_ifs
      · rfl
      · simp [Option.map_map, Function.comp_def]

theorem outside_shift (t : Text) (offset k : Nat) :
    outside (offset + k) t = (outside offset t).map (Group.shift k) :=
  (outside_inside_shift t k).1 offset

end Group

namespace Compiler

variable (c : Compiler) (k : Nat) (g : Group)

theorem readGroup_shift :
    c.readGroup (g.shift k) =
      ⟨(c.readGroup g).value.map (Node.mapSpans (Span.shift k)),
        (c.readGroup g).reports.map (Report.shift k)⟩ := by
  rw [readGroup, readGroup, Group.contentSpan_shift]
  exact Node.read_shift c.maxDepth c.maxDepth g.contentSpan.start k g.content

theorem reports_compileGroup_shift :
    (c.compileGroup (g.shift k)).reports = (c.compileGroup g).reports.map (Report.shift k) := by
  rw [reports_compileGroup, reports_compileGroup, readGroup_shift, List.map_append]
  cases (c.readGroup g).value with
  | none => rfl
  | some n => simp [Registry.render_mapSpans]

/-- A group is written as the same text wherever it stands. -/
theorem latex_compileGroup_shift :
    (c.compileGroup (g.shift k)).value.map Fragment.latex =
      (c.compileGroup g).value.map Fragment.latex := by
  rw [value_compileGroup, value_compileGroup, readGroup_shift]
  cases (c.readGroup g).value with
  | none => rfl
  | some n => simp [Registry.render_mapSpans]

end Compiler

end GraphTex
