import GraphTex.Proofs.Depths
import GraphTex.Session

/-!
# What becomes of each token

Rendering does not count the arguments of a node that is marked as having lost one, because a
diagnostic is there already. This holds at every depth, also in text that is not balanced: a text
that cannot be read is reported inside its own span, and so is a token (`Node.report_of_none`,
`Argument.report_of_none`). So the arguments of a node are what was read from the tokens behind its
command, in order, and each token that is missing has a diagnostic of its own (`reading_accounts`).
-/

namespace GraphTex

open Paren

/-! ### What cannot be read is reported -/

/-- The span is a part of another one. -/
def Span.IsInside (s outer : Span) : Prop :=
  outer.start ≤ s.start ∧ s.start ≤ s.stop ∧ s.stop ≤ outer.stop

theorem Span.isInside_self (offset : Nat) (t : Text) :
    (Span.ofText offset t).IsInside (.ofText offset t) :=
  ⟨Nat.le_refl _, Nat.le_add_right _ _, Nat.le_refl _⟩

theorem Span.IsInside.trans {s middle outer : Span} (h : s.IsInside middle)
    (houter : middle.IsInside outer) : s.IsInside outer := by
  obtain ⟨hstart, hle, hstop⟩ := h
  obtain ⟨hstart', -, hstop'⟩ := houter
  exact ⟨by omega, hle, by omega⟩

theorem Text.HasPiece.isInside {text piece : Text} {offset place : Nat}
    (h : text.HasPiece offset piece place) :
    (Span.ofText place piece).IsInside (.ofText offset text) := by
  obtain ⟨before, after, rfl, rfl⟩ := h
  simp only [Span.IsInside, Span.ofText, Text.bytes_append]
  omega

variable {limit levels offset : Nat} {text : Text}

/-- **A text that cannot be read is reported inside its span.** -/
theorem Node.report_of_none (h : (Node.read limit levels offset text).value = none) :
    ∃ r ∈ (Node.read limit levels offset text).reports, r.span.IsInside (.ofText offset text) := by
  cases levels with
  | zero =>
    rw [Node.read_zero]
    exact ⟨_, List.mem_singleton_self _, Span.isInside_self offset text⟩
  | succ levels =>
    rcases Node.report_or_command offset text with
      ⟨found, span, hspan, hnone⟩ | ⟨head, rest, htokens, hopen⟩
    · rw [hnone]
      refine ⟨_, List.mem_append_right _ (List.mem_singleton_self _), ?_⟩
      rcases hspan with rfl | ⟨head, hhead, rfl⟩
      · exact Span.isInside_self offset text
      · exact (Token.hasPiece_of_mem_split hhead).isInside
    · rw [Node.read_command htokens hopen] at h
      exact absurd h (by simp)

/-- **A token that cannot be read is reported inside its span.** -/
theorem Argument.report_of_none {t : Token}
    (h : (Argument.read (Node.read limit levels) t).value = none) :
    ∃ r ∈ (Argument.read (Node.read limit levels) t).reports, r.span.IsInside t.span := by
  rcases t.shape with hliteral | ⟨hopen, hcontent⟩ | ⟨content, htext⟩
  · rw [Argument.read_literal hliteral] at h
    exact absurd h (by simp)
  · rw [Argument.read_unclosed hopen hcontent]
    exact ⟨_, List.mem_singleton_self _, Span.isInside_self t.start t.text⟩
  · rw [Argument.read_expr htext] at h ⊢
    obtain ⟨r, hr, hinside⟩ := Node.report_of_none (Option.map_eq_none_iff.1 h)
    exact ⟨r, hr, hinside.trans (Token.hasPiece_content htext).isInside⟩

/-! ### Accounts -/

/-- What became of the given tokens, each read with so many levels left: the arguments of the node
are what was read from them, in order, the node is marked if one of them could not be read, and for
each of these there is a diagnostic inside it. -/
structure Node.Accounts (limit levels : Nat) (tokens : List Token) (found : List Diagnostic)
    (m : Node) : Prop where
  args : m.args = tokens.filterMap fun t => (Argument.read (Node.read limit levels) t).value
  dropped : m.droppedArgs = true ↔
    ∃ t ∈ tokens, (Argument.read (Node.read limit levels) t).value = none
  reported : ∀ t ∈ tokens, (Argument.read (Node.read limit levels) t).value = none →
    ∃ d ∈ found, d.span.IsInside t.span

/-- A report inside a span is a diagnostic inside that span. -/
theorem Diagnostic.isInside_ofReport {r : Report} {outer : Span} (h : r.span.IsInside outer)
    (source : Source) : (Diagnostic.ofReport source r).span.IsInside outer := by
  rw [Diagnostic.ofReport, Span.normalize_of_le h.2.1]
  exact h

/-- A node accounts for the tokens of the text it is read from. -/
theorem Node.accounts_of_read {m : Node} {source : Source} {reports : List Report}
    (h : (Node.read limit (levels + 1) offset text).value = some m)
    (hreports : ∀ r ∈ (Node.read limit (levels + 1) offset text).reports, r ∈ reports) :
    ∃ head rest, (Token.split offset text).value = head :: rest ∧ m.command = head.text ∧
      m.Accounts limit levels rest (reports.map (Diagnostic.ofReport source)) := by
  obtain ⟨head, rest, htokens, hopen, rfl⟩ := Node.read_eq_some h
  refine ⟨head, rest, htokens, rfl, rfl, ?_, ?_⟩
  · simp
  · intro t ht hnone
    obtain ⟨r, hr, hinside⟩ := Argument.report_of_none hnone
    have hmem : r ∈ (Node.read limit (levels + 1) offset text).reports := by
      rw [Node.read_command htokens hopen]
      exact List.mem_append_right _ (List.mem_flatMap.2 ⟨t, ht, hr⟩)
    exact ⟨_, List.mem_map_of_mem (hreports r hmem), Diagnostic.isInside_ofReport hinside source⟩

/-- **No argument disappears silently.** Reading an expression in a session only adds to the
diagnostics. If there is no tree, it adds one inside the span of the text. Every node of a tree
accounts for the tokens of the text at its span: its arguments are those that could be read, in
order, it is marked exactly if one could not, and that one has a diagnostic inside its span. If
nothing is added, there is a tree in which no node is marked. -/
theorem reading_accounts (s : Session) (offset : Nat) (text : Text) :
    ∃ (result : Option Node) (found : List Diagnostic),
      (s.step (.expression offset text)).1 = .node result ∧
      (s.step (.expression offset text)).2.sink.diagnostics = s.sink.diagnostics ++ found ∧
      (result = none → ∃ d ∈ found, d.span.IsInside (.ofText offset text)) ∧
      (∀ n, result = some n → ∀ m ∈ n.nodes, ∃ depth content head rest,
        m ∈ n.nodesAt depth ∧ text.sliceFrom? offset m.span = some content ∧
          (Token.split m.span.start content).value = head :: rest ∧ m.command = head.text ∧
          m.Accounts s.maxDepth (s.maxDepth - depth) rest found) ∧
      (found = [] → ∃ n, result = some n ∧ ∀ m ∈ n.nodes, m.droppedArgs = false) := by
  refine ⟨_, _, rfl, Sink.diagnostics_record s.sink _, ?_, ?_, ?_⟩
  · intro hnone
    obtain ⟨r, hr, hinside⟩ := Node.report_of_none hnone
    exact ⟨_, List.mem_map_of_mem hr, Diagnostic.isInside_ofReport hinside _⟩
  · intro n hn m hm
    obtain ⟨depth, hdepth⟩ := Node.exists_depth_of_mem_nodes hm
    obtain ⟨left, content, hleft, hdescent⟩ := Node.exists_descent hn hdepth
    obtain ⟨head, rest, htokens, hcommand, haccounts⟩ :=
      Node.accounts_of_read hdescent.read hdescent.reports
    refine ⟨depth, content, head, rest, hdepth, ?_, htokens, hcommand, ?_⟩
    · rw [Node.span_of_read hdescent.read]
      exact hdescent.piece.sliceFrom?_eq
    · rw [show s.maxDepth - depth = left by omega]
      exact haccounts
  · intro hnil
    exact Node.read_whole _ _ offset text (List.map_eq_nil_iff.1 hnil)

end GraphTex
