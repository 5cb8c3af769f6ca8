import GraphTex.Proofs.Faithful
import GraphTex.Proofs.Groups
import GraphTex.Proofs.Rendering

/-!
# Diagnostics point at what they are about

Every diagnostic has a span, and for each kind of fault there is a rule for the text at this span
(`PointsAt`): a command that is not known stands there, the content of a pair of parentheses that
has no command, a parenthesis without partner, and so on. The rule holds of every report on the
groups of a source, on the expressions that are read from them at any depth, and on the trees that
are rendered, so it holds of all diagnostics of every source (`diagnostics_pointing`).
-/

namespace GraphTex

open Paren

/-- The span cuts the content of a pair of parentheses out of the source. -/
def ContentAt (source : Text) (span : Span) (content : Text) : Prop :=
  source.slice? span = some content ∧
    source.slice? span.widen = some ('(' :: (content ++ [')']))

/-- The argument is written at the span: a literal as a whole, an expression without its
parentheses. -/
def Argument.StandsAt (source : Text) (span : Span) : Argument → Prop
  | .literal text place => place = span ∧ source.slice? span = some text
  | .expr child => child.span = span ∧ ∃ content, ContentAt source span content

/-- What the source has at the span of a fault. The nodes are those that the fault may be about. -/
def PointsAt (source : Text) (nodes : List Node) (span : Span) : Fault → Prop
  | .unknownCommand text | .malformedIdentifier text | .commandExpected (some text) =>
    source.slice? span = some text
  | .commandExpected none =>
    ∃ content, ContentAt source span content ∧ ∀ c ∈ content, isBlank c = true
  | .nestingTooDeep _ => ∃ content, ContentAt source span content
  | .arityMismatch command _ actual =>
    ∃ n ∈ nodes, n.command = command ∧ n.args.length = actual ∧ n.span = span ∧
      ∃ content, ContentAt source span content
  | .expectedIdentifier command _ =>
    ∃ n ∈ nodes, n.command = command ∧ ∃ child, .expr child ∈ n.args ∧
      (Argument.expr child).StandsAt source span
  | .mismatchedParentheses =>
    ∃ piece, source.slice? span = some piece ∧ ('(' ∈ piece ∨ ')' ∈ piece)
  | .unexpectedNumber command =>
    ∃ n ∈ nodes, n.command = command ∧ ∃ arg ∈ n.args, arg.isNumber = true ∧
      arg.StandsAt source span
  | .expectedParams command =>
    ∃ n ∈ nodes, n.command = command ∧ ∃ arg ∈ n.args, arg.isCallOf "params".toList = false ∧
      arg.StandsAt source span
  | .emptyIdentifier _ | .invalidPath _ _ => False

variable {source : Text} {nodes : List Node} {span : Span} {fault : Fault}

theorem Argument.StandsAt.exists_slice {arg : Argument} (h : arg.StandsAt source span) :
    ∃ piece, source.slice? span = some piece := by
  cases arg with
  | literal text place => exact ⟨text, h.2⟩
  | expr child =>
    obtain ⟨-, content, hcontent⟩ := h
    exact ⟨content, hcontent.1⟩

/-- The span of a fault is inside the source, between characters. -/
theorem PointsAt.exists_slice (h : PointsAt source nodes span fault) :
    ∃ piece, source.slice? span = some piece := by
  cases fault with
  | unknownCommand text => exact ⟨text, h⟩
  | malformedIdentifier text => exact ⟨text, h⟩
  | commandExpected found =>
    cases found with
    | some text => exact ⟨text, h⟩
    | none =>
      obtain ⟨content, hcontent, -⟩ := h
      exact ⟨content, hcontent.1⟩
  | arityMismatch command expected actual =>
    obtain ⟨n, -, -, -, -, content, hcontent⟩ := h
    exact ⟨content, hcontent.1⟩
  | expectedIdentifier command role =>
    obtain ⟨n, -, -, child, -, hstands⟩ := h
    exact hstands.exists_slice
  | nestingTooDeep limit => exact h.imp fun content hcontent => hcontent.1
  | mismatchedParentheses => exact h.imp fun piece hpiece => hpiece.1
  | unexpectedNumber command =>
    obtain ⟨n, -, -, arg, -, -, hstands⟩ := h
    exact hstands.exists_slice
  | expectedParams command =>
    obtain ⟨n, -, -, arg, -, -, hstands⟩ := h
    exact hstands.exists_slice
  | emptyIdentifier identifier => exact h.elim
  | invalidPath path reason => exact h.elim

/-- A report that points at its text in the given nodes. -/
def Report.Points (source : Text) (nodes : List Node) (r : Report) : Prop :=
  PointsAt source nodes r.span r.fault

/-! ### Parentheses -/

/-- A report on a parenthesis points at it. -/
theorem points_mismatch {before after : Text} {c : Char} (h : source = before ++ c :: after)
    (hc : c = '(' ∨ c = ')') : (mismatch before.bytes).Points source nodes := by
  refine ⟨[c], Text.slice?_eq_some_iff.2 ⟨before, after, h, ?_⟩, by simpa [eq_comm] using hc⟩
  have hsize : c.utf8Size = 1 := by
    rcases hc with rfl | rfl
    · exact utf8Size_open
    · exact utf8Size_close
  rw [mismatch, Span.ofByte, Span.ofText, Text.bytes_cons, Text.bytes_nil, hsize]

/-- Every report on the groups of a source points at a parenthesis. -/
theorem Group.points_of_mem_find {r : Report} (h : r ∈ (Group.find source).reports) :
    r.Points source nodes := by
  rcases List.mem_append.1 h with hstray | hunclosed
  · obtain ⟨before, after, hsource, rfl⟩ := exists_of_mem_strays hstray
    rw [Nat.zero_add]
    exact points_mismatch hsource (.inr rfl)
  · obtain ⟨o, ho, rfl⟩ := Option.map_eq_some_iff.1 (Option.mem_toList.1 hunclosed)
    rcases Group.exists_of_unclosed? ho with ⟨hzero, -⟩ | ⟨before, after, hsource, rfl⟩
    · exact absurd rfl hzero
    · rw [Nat.zero_add]
      exact points_mismatch hsource (.inl rfl)

theorem Paren.open_mem_of_depth {t : Text} (h : depth t ≠ 0) : '(' ∈ t := by
  cases hunclosed : unclosed? 0 0 0 t with
  | none => exact absurd ((Group.unclosed?_eq_none_iff t 0 0 0).1 hunclosed) h
  | some o =>
    rcases Group.exists_of_unclosed? hunclosed with ⟨hzero, -⟩ | ⟨before, after, rfl, -⟩
    · exact absurd rfl hzero
    · simp

/-! ### Reading -/

section Reading

variable {text : Text} {offset : Nat}

theorem EnclosedAt.contentAt (h : EnclosedAt source text offset) :
    ContentAt source (.ofText offset text) text :=
  ⟨by simpa using h.slice (show text = [] ++ (text ++ []) by simp), h.slice_widen⟩

theorem Token.points_of_mem_split (hsource : EnclosedAt source text offset) {r : Report}
    (h : r ∈ (Token.split offset text).reports) : r.Points source nodes := by
  rcases List.mem_append.1 h with hstray | hunclosed
  · obtain ⟨before, after, htext, rfl⟩ := exists_of_mem_strays hstray
    -- the parenthesis stands in the source behind all that stands in front of the text
    obtain ⟨front, back, hfront, rfl⟩ := hsource
    have hplace : source = (front ++ '(' :: before) ++ ')' :: (after ++ ')' :: back) := by
      simp [hfront, htext]
    have hbytes : front.bytes + 1 + before.bytes = (front ++ '(' :: before).bytes := by
      rw [Text.bytes_append, Text.bytes_cons, utf8Size_open, Nat.add_assoc]
    rw [hbytes]
    exact points_mismatch hplace (.inr rfl)
  · split_ifs at hunclosed with hdepth
    · simp at hunclosed
    · rw [List.mem_singleton.1 hunclosed]
      exact ⟨text, hsource.contentAt.1, .inl (open_mem_of_depth hdepth)⟩

theorem blank_of_split_nil (h : (Token.split offset text).value = []) :
    ∀ c ∈ text, isBlank c = true := by
  have hlaid := Token.laidOut_split text offset
  rw [h] at hlaid
  intro c hc
  obtain ⟨before, after, htext⟩ := List.append_of_mem hc
  exact hlaid.blank before c after htext (by simp)

/-- **Every report on the reading of an enclosed text points at its text**, at every depth. -/
theorem Node.points_of_mem_read {limit levels : Nat} (hsource : EnclosedAt source text offset)
    {r : Report} (h : r ∈ (Node.read limit levels offset text).reports) :
    r.Points source nodes := by
  induction levels generalizing offset text with
  | zero =>
    rw [Node.read_zero] at h
    rw [List.mem_singleton.1 h]
    exact ⟨text, hsource.contentAt⟩
  | succ levels ih =>
    -- one case for each equation of the reader; the tokens are reported on in all of them
    cases htokens : (Token.split offset text).value with
    | nil =>
      rw [Node.read_empty htokens] at h
      rcases List.mem_append.1 h with hsplit | hempty
      · exact Token.points_of_mem_split hsource hsplit
      · rw [List.mem_singleton.1 hempty]
        exact ⟨text, hsource.contentAt, blank_of_split_nil htokens⟩
    | cons head rest =>
      have hslice := fun t => Token.slice_of_mem_split hsource (t := t)
      have hnested := fun t => Token.enclosedAt_of_mem_split hsource (t := t)
      rw [htokens] at hslice hnested
      cases hopen : head.isParenthesized with
      | true =>
        rw [Node.read_enclosed htokens hopen] at h
        rcases List.mem_append.1 h with hsplit | hhead
        · exact Token.points_of_mem_split hsource hsplit
        · rw [List.mem_singleton.1 hhead]
          exact hslice head List.mem_cons_self
      | false =>
        rw [Node.read_command htokens hopen] at h
        rcases List.mem_append.1 h with hsplit | harg
        · exact Token.points_of_mem_split hsource hsplit
        · obtain ⟨t, ht, hr⟩ := List.mem_flatMap.1 harg
          have hmem := List.mem_cons_of_mem head ht
          rcases t.shape with hliteral | ⟨hparen, hcontent⟩ | ⟨content, htext⟩
          · rw [Argument.read_literal hliteral] at hr
            exact absurd hr List.not_mem_nil
          · rw [Argument.read_unclosed hparen hcontent] at hr
            rw [List.mem_singleton.1 hr]
            obtain ⟨tail, htail⟩ := List.head?_eq_some_iff.1 (Token.isParenthesized_iff.1 hparen)
            exact ⟨t.text, hslice t hmem, .inl (by simp [htail])⟩
          · rw [Argument.read_expr htext] at hr
            exact ih (hnested t hmem htext) hr

end Reading

/-! ### Rendering -/

theorem Position.points_of_mem_renderLiteral {position : Position} {text : Text}
    (hwritten : WrittenAt source span text) {r : Report}
    (h : r ∈ (position.renderLiteral text span).reports) : r.Points source nodes := by
  obtain ⟨fault, place⟩ := r
  obtain ⟨rfl, ⟨hempty, -⟩ | rfl⟩ := Position.mem_renderLiteral h
  · exact absurd hempty hwritten.ne_nil
  · exact hwritten.slice

section Rendering

variable {n : Node}

/-- An argument of a faithful tree stands at its span. -/
theorem Argument.standsAt_of_mem (hfaithful : ∀ m ∈ n.nodes, m.Faithful source) {arg : Argument}
    (harg : arg ∈ n.args) : arg.StandsAt source arg.span := by
  cases arg with
  | literal text span =>
    have hroot := hfaithful n (Node.mem_nodes.2 (.inl rfl))
    exact ⟨rfl, (hroot.literals text span harg).slice⟩
  | expr child =>
    have hchild : child ∈ n.nodes :=
      Node.mem_nodes.2 (.inr ⟨child, harg, Node.mem_nodes.2 (.inl rfl)⟩)
    exact ⟨rfl, (hfaithful child hchild).enclosed⟩

theorem Requirement.points_of_mem_violations {req : Requirement}
    (hfaithful : ∀ m ∈ n.nodes, m.Faithful source) (hroot : n ∈ nodes) {r : Report}
    (h : r ∈ req.violations n.command n.args) : r.Points source nodes := by
  obtain ⟨arg, harg, ⟨hnumber, rfl⟩ | ⟨hother, rfl⟩⟩ := Requirement.mem_violations h
  · exact ⟨n, hroot, rfl, arg, harg, hnumber, Argument.standsAt_of_mem hfaithful harg⟩
  · exact ⟨n, hroot, rfl, arg, harg, hother, Argument.standsAt_of_mem hfaithful harg⟩

/-- **Every report on the rendering of a faithful tree points at its text.** -/
theorem Registry.points_of_mem_render {r : Registry}
    (hfaithful : ∀ m ∈ n.nodes, m.Faithful source) (hnodes : ∀ m ∈ n.nodes, m ∈ nodes)
    {report : Report} (h : report ∈ (r.render n).reports) : report.Points source nodes := by
  induction n using Node.induction generalizing report with
  | node n ih =>
    have hroot : n ∈ n.nodes := Node.mem_nodes.2 (.inl rfl)
    have hn := hfaithful n hroot
    cases hget : r.get? n.command with
    | none =>
      rw [Registry.render_unknown hget] at h
      rw [List.mem_singleton.1 h]
      exact hn.command.slice
    | some c =>
      rw [Registry.reports_render_known hget, List.mem_append, List.mem_append,
        List.mem_flatMap] at h
      rcases h with harity | hrequired | ⟨⟨position, arg⟩, hplace, hmem⟩
      · rw [Command.mem_arityReports harity]
        exact ⟨n, hnodes n hroot, (Registry.get?_eq_some hget).2.symm, rfl, rfl, hn.enclosed⟩
      · cases hreq : c.rule.requirement with
        | none => simp [hreq] at hrequired
        | some req =>
          rw [hreq] at hrequired
          exact Requirement.points_of_mem_violations hfaithful (hnodes n hroot) hrequired
      · obtain ⟨i, hi, -⟩ := Slot.mem_places.1 hplace
        have harg : arg ∈ n.args := List.mem_of_getElem? hi
        change report ∈ (r.renderArg n.command position arg).reports at hmem
        cases arg with
        | literal text span =>
          rw [Registry.renderArg_literal] at hmem
          exact Position.points_of_mem_renderLiteral (hn.literals text span harg) hmem
        | expr child =>
          have hbelow : ∀ m ∈ child.nodes, m ∈ n.nodes := fun m hm =>
            Node.mem_nodes.2 (.inr ⟨child, harg, hm⟩)
          rw [Registry.renderArg_expr] at hmem
          rcases List.mem_append.1 hmem with hmisuse | hchild
          · obtain ⟨role, -, rfl⟩ := Position.mem_misuse hmisuse
            have hstands := Argument.standsAt_of_mem hfaithful harg
            exact ⟨n, hnodes n hroot, rfl, child, harg, hstands⟩
          · exact ih child harg (fun m hm => hfaithful m (hbelow m hm))
              (fun m hm => hnodes m (hbelow m hm)) hchild

end Rendering

/-! ### Compiling -/

/-- **Every report on a source points at its text**, with all nodes of the trees of the source. -/
theorem Compiler.points_of_mem_fragments {c : Compiler} {r : Report}
    (h : r ∈ (c.fragments source).reports) :
    r.Points source ((c.parse source).value.flatMap Node.nodes) := by
  rw [c.reports_fragments, List.mem_append] at h
  rcases h with hfind | hgroups
  · exact Group.points_of_mem_find hfind
  · obtain ⟨g, hg, hr⟩ := List.mem_flatMap.1 hgroups
    have hsource := Group.enclosedAt_of_mem_find hg
    rw [c.reports_compileGroup, List.mem_append] at hr
    rcases hr with hread | hrender
    · exact Node.points_of_mem_read hsource hread
    · cases hvalue : (c.readGroup g).value with
      | none =>
        rw [hvalue] at hrender
        exact absurd hrender List.not_mem_nil
      | some n =>
        rw [hvalue] at hrender
        have hn : n ∈ (c.parse source).value := by
          rw [c.value_parse]
          exact List.mem_filterMap.2 ⟨g, hg, hvalue⟩
        exact Registry.points_of_mem_render (Node.faithful_of_mem_nodes hsource hvalue)
          (fun m hm => List.mem_flatMap.2 ⟨n, hn, hm⟩) hrender

/-- **Every diagnostic points at the text it is about.** The span of a diagnostic starts and stops
between characters of the source, and what stands there is what its fault says. -/
theorem diagnostics_pointing (limit : Nat) (source : Source) {d : Diagnostic}
    (h : d ∈ (Compiler.compile { maxDepth := limit } source).diagnostics) :
    (∃ piece, source.content.slice? d.span = some piece) ∧
      d.span.start ≤ d.span.stop ∧ d.span.stop ≤ source.content.bytes ∧
      PointsAt source.content
        ((Compiler.parse { maxDepth := limit } source.content).value.flatMap Node.nodes)
        d.span d.fault := by
  rw [Compiler.diagnostics_compile] at h
  obtain ⟨r, hr, rfl⟩ := List.mem_map.1 h
  have hpoints := Compiler.points_of_mem_fragments hr
  obtain ⟨piece, hslice⟩ := hpoints.exists_slice
  obtain ⟨before, after, hsource, hspan⟩ := Text.slice?_eq_some_iff.1 hslice
  have hle : r.span.start ≤ r.span.stop := by
    rw [hspan, Span.ofText]
    exact Nat.le_add_right _ _
  have hstop : r.span.stop ≤ source.content.bytes := by
    simp only [hspan, hsource, Span.ofText, Text.bytes_append]
    omega
  rw [Diagnostic.ofReport, Span.normalize_of_le hle]
  exact ⟨⟨piece, hslice⟩, hle, hstop, hpoints⟩

/-- Behind a stray parenthesis and among wide characters, a constant where a point is taken. -/
theorem diagnostics_pointing_constant :
    ∃ d ∈ (Compiler.compile { maxDepth := 2 }
        ⟨"input", "ü) (poly é\u3000(pi))".toList⟩).diagnostics,
      d.fault = .unexpectedNumber "poly".toList ∧
      PointsAt "ü) (poly é\u3000(pi))".toList
        ((Compiler.parse { maxDepth := 2 } "ü) (poly é\u3000(pi))".toList).value.flatMap Node.nodes)
        ⟨16, 18⟩ d.fault := by
  obtain ⟨d, hd, hfault, hspan⟩ : ∃ d ∈ (Compiler.compile { maxDepth := 2 }
      ⟨"input", "ü) (poly é\u3000(pi))".toList⟩).diagnostics,
        d.fault = .unexpectedNumber "poly".toList ∧ d.span = ⟨16, 18⟩ := by decide +kernel
  obtain ⟨-, -, -, hpoints⟩ := diagnostics_pointing 2 _ hd
  rw [hspan] at hpoints
  exact ⟨d, hd, hfault, hpoints⟩

end GraphTex
