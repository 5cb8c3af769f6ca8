import GraphTex.Node.Reader
import GraphTex.Proofs.Trees

/-!
# Reading, case by case

What reading an expression or an argument gives, by the tokens it finds. Later proofs use these
equations and do not open the reader.
-/

namespace GraphTex

/-- A token encloses a text exactly if it is that text between two parentheses. -/
theorem Token.content?_eq_some_iff {t : Token} {content : Text} :
    t.content? = some content ↔ t.text = '(' :: (content ++ [')']) := by
  unfold Token.content?
  split
  · next rest htext =>
    rw [htext]
    constructor
    · intro h
      split at h
      · next hlast =>
        obtain ⟨front, rfl⟩ := List.getLast?_eq_some_iff.1 hlast
        simpa using h
      · exact absurd h (by simp)
    · intro h
      obtain rfl := (List.cons.inj h).2
      simp
  · next hopen =>
    constructor
    · intro h
      exact absurd h (by simp)
    · intro h
      exact absurd h (hopen _)

theorem Token.isParenthesized_iff {t : Token} :
    t.isParenthesized = true ↔ t.text.head? = some '(' := by
  simp [Token.isParenthesized]

theorem Token.not_isParenthesized_iff {t : Token} :
    t.isParenthesized = false ↔ t.text.head? ≠ some '(' := by
  simp [Token.isParenthesized]

/-- A token is a literal, an opening parenthesis that the last character does not close, or a text
between parentheses. -/
theorem Token.shape (t : Token) :
    t.isParenthesized = false ∨ t.isParenthesized = true ∧ t.content? = none ∨
      ∃ content, t.text = '(' :: (content ++ [')']) := by
  cases hopen : t.isParenthesized with
  | false => exact .inl rfl
  | true =>
    cases hcontent : t.content? with
    | none => exact .inr (.inl ⟨rfl, rfl⟩)
    | some content => exact .inr (.inr ⟨content, Token.content?_eq_some_iff.1 hcontent⟩)

namespace Argument

variable {descend : Nat → Text → Logged (Option Node)} {t : Token}

theorem read_literal (h : t.isParenthesized = false) :
    Argument.read descend t = ⟨some (.literal t.text t.span), []⟩ := by
  rw [Argument.read, if_neg (by simp [h])]
  rfl

theorem read_expr {content : Text} (h : t.text = '(' :: (content ++ [')'])) :
    Argument.read descend t =
      ⟨(descend (t.start + 1) content).value.map .expr,
        (descend (t.start + 1) content).reports⟩ := by
  have hopen : t.isParenthesized = true := by rw [Token.isParenthesized_iff, h, List.head?_cons]
  rw [Argument.read, if_pos hopen, Token.content?_eq_some_iff.2 h]
  change (⟨_, _ ++ []⟩ : Logged _) = _
  rw [List.append_nil]
  rfl

theorem read_unclosed (hopen : t.isParenthesized = true) (h : t.content? = none) :
    Argument.read descend t = ⟨none, [⟨.mismatchedParentheses, t.span⟩]⟩ := by
  rw [Argument.read, if_pos hopen, h]
  rfl

/-- What is read from a token: a literal, or the expression in its parentheses. -/
theorem read_eq_some {arg : Argument} (h : (Argument.read descend t).value = some arg) :
    t.isParenthesized = false ∧ arg = .literal t.text t.span ∨
      ∃ content child, t.text = '(' :: (content ++ [')']) ∧
        (descend (t.start + 1) content).value = some child ∧ arg = .expr child := by
  rcases t.shape with hliteral | ⟨hopen, hcontent⟩ | ⟨content, htext⟩
  · rw [read_literal hliteral] at h
    exact .inl ⟨hliteral, (Option.some.inj h).symm⟩
  · rw [read_unclosed hopen hcontent] at h
    exact absurd h (by simp)
  · rw [read_expr htext] at h
    obtain ⟨child, hchild, rfl⟩ := Option.map_eq_some_iff.1 h
    exact .inr ⟨content, child, htext, hchild, rfl⟩

end Argument

namespace Node

variable {limit levels offset : Nat} {text : Text}

theorem read_zero :
    Node.read limit 0 offset text = ⟨none, [⟨.nestingTooDeep limit, .ofText offset text⟩]⟩ := rfl

theorem read_empty (h : (Token.split offset text).value = []) :
    Node.read limit (levels + 1) offset text =
      ⟨none, (Token.split offset text).reports ++
        [⟨.commandExpected none, .ofText offset text⟩]⟩ := by
  rw [Node.read]
  simp only [bind, h]
  rfl

variable {head : Token} {rest : List Token}

theorem read_enclosed (h : (Token.split offset text).value = head :: rest)
    (hopen : head.isParenthesized = true) :
    Node.read limit (levels + 1) offset text =
      ⟨none, (Token.split offset text).reports ++
        [⟨.commandExpected (some head.text), head.span⟩]⟩ := by
  rw [Node.read]
  simp only [bind, h, hopen]
  rfl

theorem read_command (h : (Token.split offset text).value = head :: rest)
    (hopen : head.isParenthesized = false) :
    Node.read limit (levels + 1) offset text =
      ⟨some
        { command := head.text
          commandSpan := head.span
          args := rest.filterMap fun t => (Argument.read (Node.read limit levels) t).value
          span := .ofText offset text
          droppedArgs := rest.any fun t => (Argument.read (Node.read limit levels) t).value.isNone },
        (Token.split offset text).reports ++
          rest.flatMap fun t => (Argument.read (Node.read limit levels) t).reports⟩ := by
  rw [Node.read]
  simp only [bind, h, hopen, Logged.value_each, Logged.reports_each]
  simp [pure, List.filterMap_map, List.any_map, Function.comp_def]

/-- What is read has its command from the first token and its arguments from the others. -/
theorem read_eq_some {n : Node} (h : (Node.read limit (levels + 1) offset text).value = some n) :
    ∃ head rest, (Token.split offset text).value = head :: rest ∧ head.isParenthesized = false ∧
      n =
        { command := head.text
          commandSpan := head.span
          args := rest.filterMap fun t => (Argument.read (Node.read limit levels) t).value
          span := .ofText offset text
          droppedArgs :=
            rest.any fun t => (Argument.read (Node.read limit levels) t).value.isNone } := by
  cases htokens : (Token.split offset text).value with
  | nil =>
    rw [read_empty htokens] at h
    exact absurd h (by simp)
  | cons head rest =>
    cases hopen : head.isParenthesized with
    | true =>
      rw [read_enclosed htokens hopen] at h
      exact absurd h (by simp)
    | false =>
      rw [read_command htokens hopen] at h
      exact ⟨head, rest, rfl, hopen, (Option.some.inj h).symm⟩

/-- Reading reports first what the tokens are reported for. -/
theorem exists_reports_read (limit levels offset : Nat) (text : Text) :
    ∃ later, (Node.read limit (levels + 1) offset text).reports =
      (Token.split offset text).reports ++ later := by
  cases htokens : (Token.split offset text).value with
  | nil => exact ⟨_, by rw [read_empty htokens]⟩
  | cons head rest =>
    cases hopen : head.isParenthesized with
    | true => exact ⟨_, by rw [read_enclosed htokens hopen]⟩
    | false => exact ⟨_, by rw [read_command htokens hopen]⟩

/-- A text is reported to have no command, or its first token is one. The limit does not matter for
this, nor how many levels are left. -/
theorem report_or_command (offset : Nat) (text : Text) :
    (∃ found span, (span = .ofText offset text ∨
        ∃ head ∈ (Token.split offset text).value, span = head.span) ∧
      ∀ limit levels, Node.read limit (levels + 1) offset text =
        ⟨none, (Token.split offset text).reports ++ [⟨.commandExpected found, span⟩]⟩) ∨
    ∃ head rest, (Token.split offset text).value = head :: rest ∧ head.isParenthesized = false := by
  cases htokens : (Token.split offset text).value with
  | nil => exact .inl ⟨none, _, .inl rfl, fun limit levels => read_empty htokens⟩
  | cons head rest =>
    cases hopen : head.isParenthesized with
    | true =>
      exact .inl ⟨some head.text, head.span, .inr ⟨head, List.mem_cons_self, rfl⟩,
        fun limit levels => read_enclosed htokens hopen⟩
    | false => exact .inr ⟨head, rest, rfl, hopen⟩

theorem span_of_read {n : Node} (h : (Node.read limit levels offset text).value = some n) :
    n.span = .ofText offset text := by
  cases levels with
  | zero => exact absurd h (by simp [read_zero])
  | succ levels =>
    obtain ⟨head, rest, -, -, rfl⟩ := read_eq_some h
    rfl

end Node

/-! ### Reading without report -/

/-- Reading without report finds a command, balanced text, and nothing to report on an argument. -/
theorem Node.exists_command {limit levels offset : Nat} {text : Text}
    (h : (Node.read limit (levels + 1) offset text).reports = []) :
    ∃ head rest, (Token.split offset text).value = head :: rest ∧ head.isParenthesized = false ∧
      (Token.split offset text).reports = [] ∧
      ∀ t ∈ rest, (Argument.read (Node.read limit levels) t).reports = [] := by
  cases htokens : (Token.split offset text).value with
  | nil =>
    rw [Node.read_empty htokens] at h
    exact absurd h (by simp)
  | cons head rest =>
    cases hopen : head.isParenthesized with
    | true =>
      rw [Node.read_enclosed htokens hopen] at h
      exact absurd h (by simp)
    | false =>
      rw [Node.read_command htokens hopen, List.append_eq_nil_iff, List.flatMap_eq_nil_iff] at h
      exact ⟨head, rest, rfl, hopen, h.1, h.2⟩

/-- What is read, if nothing is reported, is whole: no argument is dropped at any depth. -/
def ReadsWhole (descend : Nat → Text → Logged (Option Node)) : Prop :=
  ∀ offset text, (descend offset text).reports = [] →
    ∃ node, (descend offset text).value = some node ∧ ∀ m ∈ node.nodes, m.droppedArgs = false

theorem Argument.read_whole {descend : Nat → Text → Logged (Option Node)}
    (hdescend : ReadsWhole descend) {t : Token} (h : (Argument.read descend t).reports = []) :
    ∃ arg, (Argument.read descend t).value = some arg ∧
      ∀ m ∈ arg.nodes, m.droppedArgs = false := by
  rcases t.shape with hliteral | ⟨hopen, hcontent⟩ | ⟨content, htext⟩
  · rw [Argument.read_literal hliteral]
    exact ⟨_, rfl, by simp [Argument.nodes]⟩
  · rw [Argument.read_unclosed hopen hcontent] at h
    exact absurd h (by simp)
  · rw [Argument.read_expr htext] at h ⊢
    obtain ⟨node, hvalue, hwhole⟩ := hdescend _ _ h
    exact ⟨.expr node, by simp [hvalue], by simpa only [Argument.nodes] using hwhole⟩

/-- **An expression that is read without report is whole.** -/
theorem Node.read_whole (limit levels : Nat) : ReadsWhole (Node.read limit levels) := by
  induction levels with
  | zero =>
    intro offset text h
    rw [Node.read_zero] at h
    exact absurd h (by simp)
  | succ levels ih =>
    intro offset text h
    obtain ⟨head, rest, htokens, hopen, -, hread⟩ := Node.exists_command h
    rw [Node.read_command htokens hopen]
    refine ⟨_, rfl, fun m hm => ?_⟩
    rcases Node.mem_nodes.1 hm with rfl | ⟨child, hchild, hm⟩
    · rw [List.any_eq_false]
      intro t ht
      obtain ⟨arg, hvalue, -⟩ := Argument.read_whole ih (hread t ht)
      simp [hvalue]
    · obtain ⟨t, ht, hvalue⟩ := List.mem_filterMap.1 hchild
      obtain ⟨arg, harg, hwhole⟩ := Argument.read_whole ih (hread t ht)
      rw [hvalue] at harg
      obtain rfl := Option.some.inj harg
      exact hwhole m (by rwa [Argument.nodes])

end GraphTex
