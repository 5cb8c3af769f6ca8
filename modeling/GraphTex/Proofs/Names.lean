import GraphTex.Proofs.WellFormed

/-!
# Names where they are bound and where they are used

A command that binds a variable takes a name, and an expression that uses the variable has the name
in the place of a value. There a literal may also be a numeral, and numerals are tried first. Digits
and the letter `e` are characters of both, so a name like `e1` is a numeral in the place of a value
and is kept as it is, while it is written with a subscript where it is bound. Every other name is
written in the same way at both places (`value_of_name`).
-/

namespace GraphTex

/-- The letter `e` and at least one more character, all of them digits or `e` again. -/
def ReadsAsNumeral (t : Text) : Prop :=
  ∃ rest, t = 'e' :: rest ∧ rest ≠ [] ∧ ∀ c ∈ rest, c.isDigit = true ∨ c = 'e'

/-! ### Names that are numerals -/

theorem digit_or_e_of_both {c : Char} (hname : c.isAlpha = true ∨ c.isDigit = true ∨ c = '_')
    (hnumeral : c.isDigit = true ∨ c = '.' ∨ c = 'e' ∨ c = '-') : c.isDigit = true ∨ c = 'e' := by
  rcases hnumeral with hdigit | rfl | he | rfl
  · exact .inl hdigit
  · exact absurd hname (by decide)
  · exact .inr he
  · exact absurd hname (by decide)

/-- A name is a numeral exactly if it is the letter `e` alone or goes on like one. -/
theorem isNumeral_name_iff {t : Text} (h : IsName t) :
    Literal.isNumeral t = true ↔ t = ['e'] ∨ ReadsAsNumeral t := by
  rw [isNumeral_iff]
  obtain ⟨first, rest, rfl, hfirst, hrest⟩ := h
  constructor
  · rintro ⟨-, hchars⟩
    have hdigit : first.isDigit = false := ((isNameChar_and_not_isDigit first).2 hfirst).1
    obtain rfl : first = 'e' := by
      have hname : first.isAlpha = true ∨ first.isDigit = true ∨ first = '_' :=
        hfirst.imp_right .inr
      refine (digit_or_e_of_both hname (hchars first List.mem_cons_self)).resolve_left ?_
      simp [hdigit]
    by_cases hnil : rest = []
    · exact .inl (by rw [hnil])
    · refine .inr ⟨rest, rfl, hnil, fun c hc => ?_⟩
      exact digit_or_e_of_both (hrest c hc) (hchars c (List.mem_cons_of_mem _ hc))
  · rintro (heq | ⟨rest', heq, -, hchars⟩)
    · rw [heq]
      exact ⟨List.cons_ne_nil _ _, fun c hc => .inr (.inr (.inl (List.mem_singleton.1 hc)))⟩
    · rw [heq]
      refine ⟨List.cons_ne_nil _ _, fun c hc => ?_⟩
      rcases List.mem_cons.1 hc with rfl | hc
      · exact .inr (.inr (.inl rfl))
      · exact (hchars c hc).imp_right fun he => .inr (.inl he)

/-! ### How names are written -/

theorem renderName_of_isName {first : Char} {rest : Text} (h : IsName (first :: rest))
    (span : Span) :
    Position.renderName (first :: rest) span =
      pure (if rest.isEmpty then [first] else first :: '_' :: '{' :: (rest ++ ['}'])) := by
  have hvalid : (first.isDigit || !(first :: rest).all Literal.isNameChar) = false := by
    rw [← Bool.not_eq_true]
    intro hbad
    have hreports := (reports_renderName (first :: rest) span).2 h
    rw [Position.renderName, Literal.formatName, if_pos hbad] at hreports
    exact absurd hreports (by simp)
  rw [Position.renderName, Literal.formatName, hvalid]
  cases rest.isEmpty <;> rfl

theorem renderName_span {t : Text} (h : IsName t) (span span' : Span) :
    Position.renderName t span = Position.renderName t span' := by
  obtain ⟨first, rest, rfl, -⟩ := id h
  rw [renderName_of_isName h, renderName_of_isName h]

/-- A name that goes on like a numeral is not written as it is. -/
theorem ReadsAsNumeral.value_renderName_ne {t : Text} (hname : IsName t) (h : ReadsAsNumeral t)
    (span : Span) : (Position.renderName t span).value ≠ t := by
  obtain ⟨rest, rfl, hrest, -⟩ := h
  rw [renderName_of_isName hname, Logged.value_pure, if_neg (by simpa using hrest)]
  intro heq
  have hlength := congrArg List.length heq
  simp only [List.length_cons, List.length_append] at hlength
  omega

/-- In the place of a value, a name is reported on nowhere, and it is written as a name exactly if
it does not go on like a numeral. -/
theorem renderLiteral_value_of_isName {t : Text} (h : IsName t) (span span' : Span) :
    (Position.value.renderLiteral t span).reports = [] ∧
      ((Position.value.renderLiteral t span).value = (Position.renderName t span').value ↔
        ¬ ReadsAsNumeral t) ∧
      (ReadsAsNumeral t → (Position.value.renderLiteral t span).value = t) := by
  cases hnumeral : Literal.isNumeral t with
  | true =>
    have hkept : Position.value.renderLiteral t span = pure t := by
      rw [Position.renderLiteral, if_pos hnumeral]
    rw [hkept]
    refine ⟨rfl, ?_, fun _ => rfl⟩
    rcases (isNumeral_name_iff h).1 hnumeral with rfl | hreads
    · -- the letter alone is both a numeral and a name, and written as it is
      refine iff_of_true rfl ?_
      rintro ⟨rest, heq, hrest, -⟩
      exact hrest (List.cons.inj heq).2.symm
    · exact iff_of_false (hreads.value_renderName_ne h span').symm (not_not_intro hreads)
  | false =>
    have hname : Position.value.renderLiteral t span = Position.renderName t span := by
      rw [Position.renderLiteral, if_neg (by simp [hnumeral])]
    have hreads : ¬ ReadsAsNumeral t := by
      intro hreads
      rw [(isNumeral_name_iff h).2 (.inr hreads)] at hnumeral
      exact absurd hnumeral (by simp)
    have halike := congrArg Logged.value (renderName_span h span span')
    rw [hname]
    exact ⟨(reports_renderName t span).2 h, iff_of_true halike hreads, fun h => absurd h hreads⟩

/-! ### Variables -/

/-- What `let` binds is written in front of the equality sign. -/
theorem render_let {n : Node} {t : Text} {span : Span} (hcommand : n.command = "let".toList)
    (hname : n.args[0]? = some (.literal t span)) :
    ∃ later, (Registry.standard.render n).value =
      (Position.renderName t span).value ++ '=' :: later := by
  obtain ⟨args, hargs⟩ : ∃ args, n.args = .literal t span :: args := by
    rw [← List.head?_eq_getElem?] at hname
    exact List.head?_eq_some_iff.1 hname
  have hget : Registry.standard.get? n.command = Family.bindingCommands[0]? := by
    rw [hcommand]
    decide +kernel
  rw [Registry.render_known hget, hargs]
  change ∃ later, Template.fill (Registry.standard.renderArgs n.command
      [Family.nameAs "variable name", { position := .value, missing := ['0'] }] none
        (.literal t span :: args)).value
    (.append (.append (.hole 0) (.word "=")) (.hole 1)) = _ ++ '=' :: later
  rw [Registry.value_renderArgs_cons, Registry.renderArg_literal]
  simp [Template.fill, Template.word, Position.renderLiteral, Family.nameAs]

/-- **A name is the same where it is bound and where it is used**, unless it goes on like a numeral.
A name that is accepted in the place of a name is accepted in the place of a value, and it is
written in the same way exactly if it is not the letter `e` with digits or further `e` behind it;
such a name is kept as it is in the place of a value. So the variable that `let` binds is the one
that every other name stands for. -/
theorem value_of_name (r : Registry) (command user : Text) (role : String) {t : Text}
    (span span' : Span)
    (h : (r.renderArg command (.name role) (.literal t span)).reports = []) :
    (r.renderArg user .value (.literal t span')).reports = [] ∧
    ((r.renderArg user .value (.literal t span')).value =
        (r.renderArg command (.name role) (.literal t span)).value ↔ ¬ ReadsAsNumeral t) ∧
    (ReadsAsNumeral t → (r.renderArg user .value (.literal t span')).value = t) ∧
    (¬ ReadsAsNumeral t → ∀ (n : Node) (place : Span), n.command = "let".toList →
      n.args[0]? = some (.literal t place) → ∃ later, (Registry.standard.render n).value =
        (r.renderArg user .value (.literal t span')).value ++ '=' :: later) := by
  rw [Registry.renderArg_literal] at h
  have hname : IsName t := (reports_renderName t span).1 h
  rw [Registry.renderArg_literal, Registry.renderArg_literal]
  obtain ⟨hreports, halike, hkept⟩ := renderLiteral_value_of_isName hname span' span
  refine ⟨hreports, halike, hkept, fun hreads n place hcommand harg => ?_⟩
  rw [halike.2 hreads, renderName_span hname span place]
  exact render_let hcommand harg

/-- A name that has the letter `e` and a digit in front, and is no numeral. -/
theorem value_of_name_with_low_line :
    (Registry.standard.renderArg "let".toList (.name "variable name")
      (.literal "e1_x".toList ⟨5, 9⟩)).reports = [] ∧
    (Registry.standard.renderArg "add".toList .value (.literal "e1_x".toList ⟨17, 21⟩)).value =
      "e_\x7b1_x\x7d".toList := by
  have hname : (Registry.standard.renderArg "let".toList (.name "variable name")
      (.literal "e1_x".toList ⟨5, 9⟩)).reports = [] := by decide +kernel
  have hreads : ¬ ReadsAsNumeral "e1_x".toList := by
    rintro ⟨rest, heq, -, hchars⟩
    obtain rfl := (List.cons.inj heq).2
    exact absurd (hchars '_' (by decide)) (by decide)
  obtain ⟨-, halike, -⟩ := value_of_name Registry.standard "let".toList "add".toList
    "variable name" ⟨5, 9⟩ ⟨17, 21⟩ hname
  exact ⟨hname, (halike.2 hreads).trans (by decide +kernel)⟩

/-- The name `e1` is bound with a subscript and used without. -/
theorem value_e1_ne_name :
    (Registry.standard.renderArg "let".toList (.name "variable name")
      (.literal "e1".toList ⟨5, 7⟩)).reports = [] ∧
    (Registry.standard.renderArg "add".toList .value (.literal "e1".toList ⟨15, 17⟩)).value ≠
      (Registry.standard.renderArg "let".toList (.name "variable name")
        (.literal "e1".toList ⟨5, 7⟩)).value ∧
    (Compiler.compile {} ⟨"input", "(let e1 2)(add e1 1)".toList⟩).output =
      some "e_\x7b1\x7d=2\n\\left(e1+1\\right)\n".toList := by
  refine ⟨?_, ?_, ?_⟩ <;> decide +kernel

end GraphTex
