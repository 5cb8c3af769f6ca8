import GraphTex.Proofs.Formulas

/-!
# Formulas can be read back

What is written for a formula determines it. The proof is a reader of what is written
(`Formula.read`), which gives back the bare tree of every formula, whatever stands behind it as long
as that does not go on with a literal (`reads_operand`). The reader tells operations by the words in
front of their operands where it can. Sums, factorials and powers all open a parenthesis first, and
only what stands behind the first operand tells them apart: the sign of a sum, the mark of a
factorial, or neither of them in the case of a power, whose base the reader first takes for the
operand of a factorial. So two formulas that are written alike have the same commands, literals and
nesting (`formula_unambiguous`).
-/

namespace GraphTex

/-- What stands behind a word in a text that starts with it. -/
def behind? (word t : Text) : Option Text := word.isPrefixOf? t

@[simp] theorem behind?_append (word t : Text) : behind? word (word ++ t) = some t :=
  List.isPrefixOf?_eq_some_iff_append_eq.2 rfl

theorem behind?_of_head {c : Char} {word t : Text} (h : t.head? ≠ some c) :
    behind? (c :: word) t = none := by
  cases t with
  | nil => rfl
  | cons d t =>
    have hne : c ≠ d := fun heq => h (congrArg some heq.symm)
    simp [behind?, List.isPrefixOf?, hne]

namespace Formula

/-! ### The reader -/

/-- A way to read an operand at the start of a text. The rest of the text is given back. -/
abbrev Reader := Text → Option (Argument × Text)

/-- A character of a name or of a numeral without sign. -/
def isLiteralChar (c : Char) : Bool := Literal.isNameChar c || c == '.'

/-- Reads a literal: a name with a subscript, or all characters of a literal in a row. -/
def readLiteral : Reader := fun t =>
  match behind? "_\x7b".toList t.tail with
  | some subscript =>
    (behind? "\x7d".toList (subscript.dropWhile Literal.isNameChar)).map fun rest =>
      (.literal (t.take 1 ++ subscript.takeWhile Literal.isNameChar) default, rest)
  | none => some (.literal (t.takeWhile isLiteralChar) default, t.dropWhile isLiteralChar)

section operations

variable (inner : Reader)

/-- Reads one operand in front of each of the given words. -/
def readOperands : List Text → Text → Option (List Argument × Text)
  | [], t => some ([], t)
  | closing :: closings, t => do
    let (arg, t) ← inner t
    let t ← behind? closing t
    let (args, t) ← readOperands closings t
    some (arg :: args, t)

/-- Reads an operation of a shape, behind its opening. -/
def readShape (s : Shape) : Reader := fun t =>
  (readOperands inner s.closings t).map fun (args, t) => (.call s.command (s.arrange args), t)

/-- Reads operands behind a sign up to the end of a parenthesis, at most `count` of them. -/
def readChain (s : Sign) : Nat → Text → Option (List Argument × Text)
  | 0, _ => none
  | count + 1, t =>
    match behind? s.text t with
    | none => (behind? "\\right)".toList t).map fun t => ([], t)
    | some t => do
      let (arg, t) ← inner ((behind? [' '] t).getD t)
      let (args, t) ← readChain s count t
      some (arg :: args, t)

/-- Reads what a parenthesis starts with an operand: a factorial, an operation with a sign or a
power. -/
def readOpened (count : Nat) : Reader := fun t =>
  match inner t with
  | some (first, t) =>
    match behind? "\\right)!".toList t with
    | some t => some (.call Shape.fact.command [first], t)
    | none => do
      let s ← Sign.all.find? fun s => (behind? s.text t).isSome
      let (args, t) ← readChain inner s count t
      some (.call s.command (first :: args), t)
  | none => (behind? "\\left(".toList t).bind (readShape inner Shape.pow)

end operations

/-- The shape whose opening the text starts with. -/
def findShape (t : Text) : Option (Shape × Text) :=
  Shape.plain.findSome? fun s => (behind? s.opening t).map fun t => (s, t)

/-- Reads a formula that is written with at most `fuel` characters. -/
def read : Nat → Reader
  | 0, _ => none
  | fuel + 1, t =>
    match findShape t with
    | some (s, t) => readShape (read fuel) s t
    | none =>
      match behind? "\\left(".toList t with
      | some t => readOpened (read fuel) fuel t
      | none => readLiteral t

/-- Reads a whole text as a formula. -/
def decode (t : Text) : Option Argument :=
  match read t.length t with
  | some (arg, []) => some arg
  | _ => none

end Formula

/-! ### Operands in a text -/

/-- The text does not go on with a literal. -/
def Follows (t : Text) : Prop := ∀ c, t.head? = some c → Formula.isLiteralChar c = false

theorem follows_nil : Follows [] := nofun

/-- The word starts with a character that is not one of a literal. -/
def endsLiteral (w : Text) : Bool := w.head?.any fun c => !Formula.isLiteralChar c

theorem follows_append {w : Text} (h : endsLiteral w = true) (t : Text) : Follows (w ++ t) := by
  cases w with
  | nil => cases h
  | cons c w =>
    rintro d ⟨⟩
    simpa [endsLiteral] using h

/-- The reader gives the operand back, bare, wherever it stands. -/
def Reads (read : Formula.Reader) (a : Argument) : Prop :=
  ∀ t, Follows t → read (a.operand ++ t) = some (a.bare, t)

theorem Formula.isLiteralChar_of_isNumeralChar {c : Char} (h : Literal.isNumeralChar c = true)
    (hminus : c ≠ '-') : Formula.isLiteralChar c = true := by
  simp only [Literal.isNumeralChar, Bool.or_eq_true, beq_iff_eq] at h
  rcases h with ((h | rfl) | rfl) | rfl
  · simp [Formula.isLiteralChar, Literal.isNameChar, Char.isAlphanum, h]
  · decide
  · decide
  · exact absurd rfl hminus

/-- A literal of a formula is written as it is, and then its second character is not a low line, or
as a name with a subscript. -/
theorem Argument.IsFormula.operand_literal {text : Text} {span : Span}
    (h : (Argument.literal text span).IsFormula) :
    ((Argument.literal text span).operand = text ∧ text ≠ [] ∧
        (∀ c ∈ text, Formula.isLiteralChar c = true) ∧ text.tail.head? ≠ some '_') ∨
      ∃ first rest, text = first :: rest ∧
        (Argument.literal text span).operand =
          first :: ("_\x7b".toList ++ (rest ++ "\x7d".toList)) ∧
        Formula.isLiteralChar first = true ∧ ∀ c ∈ rest, Literal.isNameChar c = true := by
  obtain ⟨haccepted, hminus⟩ | - := h
  rw [Argument.operand_literal]
  cases hnumeral : Literal.isNumeral text with
  | true =>
    rw [Position.renderLiteral, if_pos hnumeral] at haccepted ⊢
    simp only [Literal.isNumeral, Bool.and_eq_true, Bool.not_eq_true', List.isEmpty_eq_false_iff,
      List.all_eq_true] at hnumeral
    obtain ⟨hne, hchars⟩ := hnumeral
    refine .inl ⟨rfl, hne, fun c hc => ?_, fun hlow => ?_⟩
    · exact Formula.isLiteralChar_of_isNumeralChar (hchars c hc) fun heq => hminus (heq ▸ hc)
    · have hmem := List.mem_of_mem_tail (List.mem_of_head? hlow)
      exact absurd (hchars '_' hmem) (by decide)
  | false =>
    rw [Position.renderLiteral, if_neg (by simp [hnumeral])] at haccepted ⊢
    have hname := (reports_renderName text span).1 haccepted
    obtain ⟨first, rest, rfl, hfirst, hrest⟩ := id hname
    have hchars : ∀ c ∈ first :: rest, Literal.isNameChar c = true := by
      intro c hc
      rcases List.mem_cons.1 hc with rfl | hc
      · exact ((isNameChar_and_not_isDigit c).2 hfirst).2
      · have := hrest c hc
        simpa [Literal.isNameChar, Char.isAlphanum, or_assoc] using this
    have hliteral : ∀ c ∈ first :: rest, Formula.isLiteralChar c = true := fun c hc => by
      simp [Formula.isLiteralChar, hchars c hc]
    rw [renderName_of_isName hname]
    cases rest with
    | nil => exact .inl ⟨rfl, List.cons_ne_nil _ _, hliteral, by simp⟩
    | cons second rest =>
      exact .inr ⟨first, second :: rest, rfl, rfl, hliteral first List.mem_cons_self,
        fun c hc => hchars c (List.mem_cons_of_mem _ hc)⟩

/-- Literals can be read back. -/
theorem Argument.IsFormula.readLiteral {text : Text} {span : Span}
    (h : (Argument.literal text span).IsFormula) :
    Reads Formula.readLiteral (.literal text span) := by
  intro t ht
  rw [Argument.bare_literal, Formula.readLiteral]
  rcases h.operand_literal with ⟨hwritten, hne, hchars, hlow⟩ |
    ⟨first, rest, rfl, hwritten, -, hrest⟩
  · have hplain : behind? "_\x7b".toList (text ++ t).tail = none := by
      refine behind?_of_head (c := '_') fun hhead => ?_
      rw [List.tail_append_of_ne_nil hne, List.head?_append] at hhead
      cases hsecond : text.tail.head? with
      | none =>
        rw [hsecond, Option.none_or] at hhead
        exact absurd (ht '_' hhead) (by decide)
      | some c =>
        rw [hsecond, Option.some_or] at hhead
        exact hlow (hsecond.trans hhead)
    obtain ⟨htake, hdrop⟩ := Text.takeWhile_append_of_head hchars ht
    rw [hwritten, hplain, htake, hdrop]
  · have hclosed : ∀ c, ("\x7d".toList ++ t).head? = some c → Literal.isNameChar c = false := by
      intro c hc
      obtain rfl : '}' = c := Option.some.inj hc
      decide
    obtain ⟨htake, hdrop⟩ := Text.takeWhile_append_of_head hrest hclosed
    rw [hwritten, List.cons_append, List.append_assoc, List.append_assoc, List.tail_cons,
      behind?_append]
    simp only [htake, hdrop, behind?_append, Option.map_some]
    rfl

theorem Shape.exists_opening {s : Shape} (hs : s ∈ Shape.all) :
    ∃ rest, s.opening = '\\' :: rest := by
  have hheads : ∀ s ∈ Shape.all, s.opening.head? = some '\\' := by decide
  exact List.head?_eq_some_iff.1 (hheads s hs)

theorem Argument.IsFormula.exists_operand_literal {text : Text} {span : Span}
    (h : (Argument.literal text span).IsFormula) :
    ∃ c rest, (Argument.literal text span).operand = c :: rest ∧
      Formula.isLiteralChar c = true := by
  rcases h.operand_literal with ⟨hwritten, hne, hchars, -⟩ | ⟨first, rest, -, hwritten, hfirst, -⟩
  · obtain ⟨c, rest, rfl⟩ := List.exists_cons_of_ne_nil hne
    exact ⟨c, rest, hwritten, hchars c List.mem_cons_self⟩
  · exact ⟨first, _, hwritten, hfirst⟩

theorem Node.IsFormula.exists_render {n : Node} (h : n.IsFormula) :
    ∃ rest, (Registry.standard.render n).value = '\\' :: rest := by
  rcases h.shape_or_sign with ⟨s, hs, hcommand, hcount⟩ | ⟨s, hs, hcommand, hcount⟩
  · obtain ⟨rest, hrest⟩ := Shape.exists_opening hs
    rw [value_render_shape hs hcommand hcount, hrest]
    exact ⟨_, rfl⟩
  · obtain ⟨first, more, hargs⟩ :=
      List.exists_cons_of_length_pos (Nat.lt_of_lt_of_le (by decide) hcount)
    exact ⟨_, value_render_sign hs hcommand hargs⟩

/-- An operand starts with a backslash or a character of a literal. -/
theorem Argument.IsFormula.head_operand {a : Argument} (h : a.IsFormula) (t : Text) {c : Char}
    (hslash : c ≠ '\\') (hliteral : Formula.isLiteralChar c = false) :
    (a.operand ++ t).head? ≠ some c := by
  cases a with
  | literal text span =>
    obtain ⟨d, rest, hoperand, hd⟩ := h.exists_operand_literal
    rw [hoperand]
    rintro ⟨⟩
    rw [hliteral] at hd
    cases hd
  | expr n =>
    obtain - | hn := h
    obtain ⟨rest, hwritten⟩ := hn.exists_render
    rw [Argument.operand_expr, hwritten]
    rintro ⟨⟩
    exact hslash rfl

/-! ### Reading operations -/

section Reading

variable {read : Formula.Reader} {args : List Argument}

theorem readOperands_enclose {closings : List Text} (hcount : args.length = closings.length)
    (hargs : ∀ arg ∈ args, Reads read arg)
    (hclosings : ∀ closing ∈ closings, endsLiteral closing = true) (t : Text) :
    Formula.readOperands read closings
        (Shape.enclose (args.map Argument.operand) closings ++ t) =
      some (args.map Argument.bare, t) := by
  induction args generalizing closings with
  | nil =>
    obtain rfl := List.length_eq_zero_iff.1 hcount.symm
    rfl
  | cons arg args ih =>
    cases closings with
    | nil => cases hcount
    | cons closing closings =>
      have hfollows := follows_append (hclosings closing List.mem_cons_self)
      have hlater := ih (Nat.succ.inj hcount) (fun a ha => hargs a (List.mem_cons_of_mem _ ha))
        fun c hc => hclosings c (List.mem_cons_of_mem _ hc)
      rw [List.map_cons, Shape.enclose, List.append_assoc, List.append_assoc, Formula.readOperands,
        hargs arg List.mem_cons_self _ (hfollows _)]
      simp [hlater]

/-- An operation of a shape can be read behind its opening if its operands can. -/
theorem readShape_enclose {s : Shape} (hs : s ∈ Shape.all)
    (hcount : args.length = s.closings.length) (hargs : ∀ arg ∈ args, Reads read arg) (t : Text) :
    Formula.readShape read s
        (Shape.enclose ((s.arrange args).map Argument.operand) s.closings ++ t) =
      some (.call s.command (args.map Argument.bare), t) := by
  have hclosings : ∀ s ∈ Shape.all, ∀ closing ∈ s.closings, endsLiteral closing = true := by
    decide
  have hoperands : Formula.readOperands read s.closings
      (Shape.enclose ((s.arrange args).map Argument.operand) s.closings ++ t) =
        some ((s.arrange args).map Argument.bare, t) :=
    readOperands_enclose (by rw [s.length_arrange, hcount])
      (fun a ha => hargs a ((s.mem_arrange args).1 ha)) (hclosings s hs) t
  rw [Formula.readShape, hoperands, Option.map_some]
  simp only [← s.arrange_map, s.arrange_arrange]

theorem Sign.follows_chain {s : Sign} (hs : s ∈ Sign.all) (operands : List Text) (t : Text) :
    Follows (s.chain operands ++ ("\\right)".toList ++ t)) := by
  have hsigns : ∀ s ∈ Sign.all, endsLiteral s.text = true := by decide
  cases operands with
  | nil => exact follows_append (by decide) t
  | cons operand operands =>
    rw [Sign.chain, List.flatMap_cons, List.append_assoc, List.append_assoc]
    exact follows_append (hsigns s hs) _

theorem behind?_sign_right {s : Sign} (hs : s ∈ Sign.all) (t : Text) :
    behind? s.text ("\\right)".toList ++ t) = none := by
  simp only [Sign.all, List.mem_cons, List.not_mem_nil, or_false] at hs
  rcases hs with rfl | rfl | rfl <;> rfl

/-- The operands behind the first one can be read with their signs. -/
theorem readChain_chain {s : Sign} (hs : s ∈ Sign.all) (hformulas : ∀ arg ∈ args, arg.IsFormula)
    (hargs : ∀ arg ∈ args, Reads read arg) {count : Nat} (hcount : args.length < count) (t : Text) :
    Formula.readChain read s count
        (s.chain (args.map Argument.operand) ++ ("\\right)".toList ++ t)) =
      some (args.map Argument.bare, t) := by
  induction args generalizing count with
  | nil =>
    obtain ⟨count, rfl⟩ := Nat.exists_eq_succ_of_ne_zero (Nat.ne_of_gt hcount)
    rw [List.map_nil, Sign.chain, List.flatMap_nil, List.nil_append, Formula.readChain,
      behind?_sign_right hs]
    simp only [behind?_append, Option.map_some, List.map_nil]
  | cons arg args ih =>
    obtain ⟨count, rfl⟩ := Nat.exists_eq_succ_of_ne_zero (Nat.ne_of_gt (Nat.zero_lt_of_lt hcount))
    have hlater := ih (fun a ha => hformulas a (List.mem_cons_of_mem _ ha))
      (fun a ha => hargs a (List.mem_cons_of_mem _ ha)) (Nat.lt_of_succ_lt_succ hcount)
    have hformula := hformulas arg List.mem_cons_self
    rw [List.map_cons, Sign.chain, List.flatMap_cons, ← Sign.chain, List.append_assoc,
      List.append_assoc, List.append_assoc, Formula.readChain, behind?_append]
    have hblank : ∀ t, (behind? [' '] (Latex.seam s.text arg.operand ++ (arg.operand ++ t))).getD
        (Latex.seam s.text arg.operand ++ (arg.operand ++ t)) = arg.operand ++ t := by
      intro t
      unfold Latex.seam
      split_ifs
      · rw [behind?_append, Option.getD_some]
      · rw [List.nil_append, behind?_of_head (hformula.head_operand t (by decide) (by decide)),
          Option.getD_none]
    have hfollows := Sign.follows_chain hs (args.map Argument.operand) t
    have hread := hargs arg List.mem_cons_self _ hfollows
    simp only [hblank, hread, hlater, Option.bind_eq_bind, Option.bind_some, List.map_cons]

/-- A factorial is told by the mark behind its operand. -/
theorem readOpened_fact {count : Nat} {first : Argument} (hfirst : Reads read first) (t : Text) :
    Formula.readOpened read count (first.operand ++ ("\\right)!".toList ++ t)) =
      some (.call Shape.fact.command [first.bare], t) := by
  rw [Formula.readOpened, hfirst _ (follows_append (by decide) t)]
  simp only [behind?_append]

/-- An operation with a sign is told by the sign behind its first operand. -/
theorem readOpened_sign {s : Sign} (hs : s ∈ Sign.all) {count : Nat} {first : Argument}
    (hfirst : Reads read first) (hargs : ∀ arg ∈ args, Reads read arg)
    (hformulas : ∀ arg ∈ args, arg.IsFormula) (hne : args ≠ []) (hcount : args.length < count)
    (t : Text) :
    Formula.readOpened read count
        (first.operand ++ (s.chain (args.map Argument.operand) ++ ("\\right)".toList ++ t))) =
      some (.call s.command (first.bare :: args.map Argument.bare), t) := by
  -- the mark of a factorial and the other signs are not there
  have htold : ∀ t, behind? "\\right)!".toList (s.text ++ t) = none ∧
      (Sign.all.find? fun s' => (behind? s'.text (s.text ++ t)).isSome) = some s := by
    intro t
    simp only [Sign.all, List.mem_cons, List.not_mem_nil, or_false] at hs
    rcases hs with rfl | rfl | rfl <;> exact ⟨rfl, rfl⟩
  obtain ⟨second, more, rfl⟩ := List.exists_cons_of_ne_nil hne
  have hchain := readChain_chain hs hformulas hargs hcount t
  have hfollows := Sign.follows_chain hs ((second :: more).map Argument.operand) t
  rw [Formula.readOpened, hfirst _ hfollows]
  rw [List.map_cons, Sign.chain, List.flatMap_cons, List.append_assoc,
    List.append_assoc] at hchain ⊢
  simp only [htold, hchain, Option.bind_eq_bind, Option.bind_some]

/-- The base of a power is not an operand by itself. -/
theorem readOpened_base {count : Nat} {base : Argument} (hbase : Reads read base) (t : Text) :
    Formula.readOpened read count (base.operand ++ ("\\right)^".toList ++ t)) = none := by
  rw [Formula.readOpened, hbase _ (follows_append (by decide) t)]
  rfl

/-- What is no operand by itself is read as a power. -/
theorem readOpened_pow {count : Nat} {t : Text} (h : read ("\\left(".toList ++ t) = none) :
    Formula.readOpened read count ("\\left(".toList ++ t) =
      Formula.readShape read Shape.pow t := by
  rw [Formula.readOpened, h, behind?_append]
  rfl

end Reading

/-! ### Reading formulas -/

theorem Shape.mem_all_of_plain {s : Shape} (h : s ∈ Shape.plain) : s ∈ Shape.all :=
  List.mem_cons_of_mem _ (List.mem_cons_of_mem _ h)

theorem read_plain {s : Shape} (hs : s ∈ Shape.plain) (fuel : Nat) (t : Text) :
    Formula.read (fuel + 1) (s.opening ++ t) =
      Formula.readShape (Formula.read fuel) s t := by
  have hfind : Formula.findShape (s.opening ++ t) = some (s, t) := by
    simp only [Shape.plain, List.mem_cons, List.not_mem_nil, or_false] at hs
    rcases hs with rfl | rfl | rfl | rfl | rfl | rfl <;> rfl
  rw [Formula.read, hfind]

theorem read_opened {t : Text} (hhead : t.head? ≠ some '-') (fuel : Nat) :
    Formula.read (fuel + 1) ("\\left(".toList ++ t) =
      Formula.readOpened (Formula.read fuel) fuel t := by
  have hfind : Formula.findShape ("\\left(".toList ++ t) = none := by
    refine List.findSome?_eq_none_iff.2 fun s hs => Option.map_eq_none_iff.2 ?_
    simp only [Shape.plain, List.mem_cons, List.not_mem_nil, or_false] at hs
    rcases hs with rfl | rfl | rfl | rfl | rfl | rfl
    · rfl
    · rfl
    · rfl
    · rfl
    · rfl
    · change behind? ['-'] t = none
      exact behind?_of_head hhead
  rw [Formula.read, hfind, behind?_append]

theorem read_literal {t : Text} (hhead : t.head? ≠ some '\\') (fuel : Nat) :
    Formula.read (fuel + 1) t = Formula.readLiteral t := by
  have hfind : Formula.findShape t = none := by
    refine List.findSome?_eq_none_iff.2 fun s hs => Option.map_eq_none_iff.2 ?_
    obtain ⟨rest, hrest⟩ := Shape.exists_opening (Shape.mem_all_of_plain hs)
    rw [hrest]
    exact behind?_of_head hhead
  have hopening : behind? "\\left(".toList t = none := behind?_of_head hhead
  rw [Formula.read, hfind, hopening]

theorem Shape.length_operand_le {args : List Argument} {closings : List Text}
    (hcount : args.length = closings.length) {arg : Argument} (h : arg ∈ args) :
    arg.operand.length ≤ (Shape.enclose (args.map Argument.operand) closings).length := by
  induction args generalizing closings with
  | nil => cases h
  | cons first args ih =>
    cases closings with
    | nil => cases hcount
    | cons closing closings =>
      rw [List.map_cons, Shape.enclose, List.length_append, List.length_append]
      rcases List.mem_cons.1 h with rfl | hmem
      · omega
      · have := ih (Nat.succ.inj hcount) hmem
        omega

theorem Sign.length_operand_le (s : Sign) {args : List Argument} {arg : Argument} (h : arg ∈ args) :
    arg.operand.length ≤ (s.chain (args.map Argument.operand)).length := by
  induction args with
  | nil => cases h
  | cons first args ih =>
    rw [List.map_cons, Sign.chain, List.flatMap_cons, ← Sign.chain]
    simp only [List.length_append]
    rcases List.mem_cons.1 h with rfl | hmem
    · omega
    · have := ih hmem
      omega

theorem Sign.length_le {s : Sign} (hs : s ∈ Sign.all) (operands : List Text) :
    operands.length ≤ (s.chain operands).length := by
  have hpos := List.length_pos_iff.2 (Sign.text_of_mem s hs).1
  induction operands with
  | nil => exact Nat.zero_le _
  | cons operand operands ih =>
    rw [Sign.chain, List.flatMap_cons, ← Sign.chain]
    simp only [List.length_append, List.length_cons]
    omega

section Nodes

variable {n : Node} {fuel : Nat}

theorem length_operand_of_shape {s : Shape} (hs : s ∈ Shape.all) (hcommand : n.command = s.command)
    (hcount : n.args.length = s.closings.length) {arg : Argument} (harg : arg ∈ n.args) :
    s.opening.length + arg.operand.length ≤ (Registry.standard.render n).value.length := by
  have hle := Shape.length_operand_le ((s.length_arrange n.args).trans hcount)
    ((s.mem_arrange n.args).2 harg)
  rw [value_render_shape hs hcommand hcount, List.length_append]
  omega

variable (hformulas : ∀ arg ∈ n.args, arg.IsFormula)
  (hargs : ∀ arg ∈ n.args, ∀ fuel, arg.operand.length ≤ fuel → Reads (Formula.read fuel) arg)
  (hfuel : (Registry.standard.render n).value.length ≤ fuel + 1)
include hargs hfuel

theorem reads_args_of_shape {s : Shape} (hs : s ∈ Shape.all) (hcommand : n.command = s.command)
    (hcount : n.args.length = s.closings.length) :
    ∀ arg ∈ n.args, Reads (Formula.read fuel) arg := by
  intro arg harg
  obtain ⟨rest, hrest⟩ := Shape.exists_opening hs
  have hle := length_operand_of_shape hs hcommand hcount harg
  rw [hrest, List.length_cons] at hle
  exact hargs arg harg fuel (by omega)

theorem reads_plain {s : Shape} (hs : s ∈ Shape.plain) (hcommand : n.command = s.command)
    (hcount : n.args.length = s.closings.length) : Reads (Formula.read (fuel + 1)) (.expr n) := by
  have hall := Shape.mem_all_of_plain hs
  have hreads := reads_args_of_shape hargs hfuel hall hcommand hcount
  intro t ht
  rw [Argument.operand_expr, value_render_shape hall hcommand hcount, List.append_assoc,
    read_plain hs, readShape_enclose hall hcount hreads, Argument.bare_expr, hcommand]

include hformulas

theorem reads_fact (hcommand : n.command = Shape.fact.command)
    (hcount : n.args.length = Shape.fact.closings.length) :
    Reads (Formula.read (fuel + 1)) (.expr n) := by
  have hall : Shape.fact ∈ Shape.all := List.mem_cons_self
  have hreads := reads_args_of_shape hargs hfuel hall hcommand hcount
  obtain ⟨a, ha⟩ := List.length_eq_one_iff.1 hcount
  rw [ha] at hreads hformulas
  have hhead := (hformulas a List.mem_cons_self).head_operand
  intro t ht
  rw [Argument.operand_expr, value_render_shape hall hcommand hcount, ha]
  change Formula.read (fuel + 1)
    (("\\left(".toList ++ (a.operand ++ ("\\right)!".toList ++ []))) ++ t) = _
  rw [List.append_nil, List.append_assoc, List.append_assoc,
    read_opened (hhead _ (by decide) (by decide)),
    readOpened_fact (hreads a List.mem_cons_self), Argument.bare_expr, hcommand, ha]
  rfl

theorem reads_pow (hcommand : n.command = Shape.pow.command)
    (hcount : n.args.length = Shape.pow.closings.length) :
    Reads (Formula.read (fuel + 1)) (.expr n) := by
  have hall : Shape.pow ∈ Shape.all := List.mem_cons_of_mem _ List.mem_cons_self
  have hreads := reads_args_of_shape hargs hfuel hall hcommand hcount
  have hshape := readShape_enclose hall hcount hreads
  obtain ⟨a, b, hab⟩ := List.length_eq_two.1 hcount
  have hmem : a ∈ n.args := by simp [hab]
  have hhead := (hformulas a hmem).head_operand
  have hle := length_operand_of_shape hall hcommand hcount hmem
  have hopening : Shape.pow.opening.length = 12 := by decide
  obtain ⟨lower, rfl⟩ : ∃ lower, fuel = lower + 1 := ⟨fuel - 1, by omega⟩
  intro t ht
  rw [Argument.operand_expr, value_render_shape hall hcommand hcount, List.append_assoc]
  -- behind the first parenthesis stands no operand: the second one is closed with an exponent
  have hbase : Formula.read (lower + 1) ("\\left(".toList ++
      (Shape.enclose ((Shape.pow.arrange n.args).map Argument.operand) Shape.pow.closings ++ t)) =
        none := by
    have htext : Shape.enclose ((Shape.pow.arrange n.args).map Argument.operand)
        Shape.pow.closings ++ t =
          a.operand ++ ("\\right)^".toList ++ ("\x7b\\left(".toList ++
            (b.operand ++ ("\\right)\x7d\\right)".toList ++ t)))) := by
      rw [hab]
      simp [Shape.pow, Shape.row, Shape.arrange, Shape.enclose]
    rw [htext, read_opened (hhead _ (by decide) (by decide))]
    exact readOpened_base (hargs a hmem lower (by omega)) _
  change Formula.read (lower + 1 + 1) ("\\left(".toList ++ ("\\left(".toList ++ _)) = _
  rw [read_opened (by simp), readOpened_pow hbase, hshape, Argument.bare_expr, hcommand]

theorem reads_sign {s : Sign} (hs : s ∈ Sign.all) (hcommand : n.command = s.command)
    (hcount : 2 ≤ n.args.length) : Reads (Formula.read (fuel + 1)) (.expr n) := by
  obtain ⟨first, more, hsplit⟩ :=
    List.exists_cons_of_length_pos (Nat.lt_of_lt_of_le (by decide) hcount)
  have hwritten := value_render_sign hs hcommand hsplit
  rw [hsplit] at hargs hformulas hcount
  rw [hwritten, List.length_append, List.length_append, List.length_append] at hfuel
  have hopening : "\\left(".toList.length = 6 := by decide
  have hlength := Sign.length_le hs (more.map Argument.operand)
  rw [List.length_map] at hlength
  have hfirst : Reads (Formula.read fuel) first := hargs first List.mem_cons_self fuel (by omega)
  have hmore : ∀ arg ∈ more, Reads (Formula.read fuel) arg := by
    intro arg harg
    have hle := s.length_operand_le harg
    exact hargs arg (List.mem_cons_of_mem _ harg) fuel (by omega)
  have hne : more ≠ [] := by
    rintro rfl
    simp at hcount
  have hothers : ∀ arg ∈ more, arg.IsFormula := fun arg harg =>
    hformulas arg (List.mem_cons_of_mem _ harg)
  intro t ht
  rw [Argument.operand_expr, hwritten, List.append_assoc, List.append_assoc, List.append_assoc,
    read_opened ((hformulas first List.mem_cons_self).head_operand _ (by decide) (by decide)),
    readOpened_sign hs hfirst hmore hothers hne (by omega), Argument.bare_expr, hcommand, hsplit,
    List.map_cons]

end Nodes

theorem reads_literal {text : Text} {span : Span} (h : (Argument.literal text span).IsFormula)
    {fuel : Nat} (hfuel : (Argument.literal text span).operand.length ≤ fuel) :
    Reads (Formula.read fuel) (.literal text span) := by
  intro t ht
  obtain ⟨c, rest, hoperand, hc⟩ := h.exists_operand_literal
  have hhead : ((Argument.literal text span).operand ++ t).head? ≠ some '\\' := by
    rw [hoperand]
    rintro ⟨⟩
    exact absurd hc (by decide)
  rw [hoperand, List.length_cons] at hfuel
  obtain ⟨fuel, rfl⟩ := Nat.exists_eq_add_of_lt hfuel
  rw [read_literal hhead, h.readLiteral t ht]

/-- **Formulas can be read back.** The induction is on the tree, and the length of what is written
bounds the nesting and the number of operands. -/
theorem reads_operand {a : Argument} (h : a.IsFormula) {fuel : Nat}
    (hfuel : a.operand.length ≤ fuel) : Reads (Formula.read fuel) a := by
  have hnode : ∀ n : Node, n.IsFormula → ∀ fuel,
      (Registry.standard.render n).value.length ≤ fuel → Reads (Formula.read fuel) (.expr n) := by
    intro n
    induction n using Node.induction with
    | node n ih =>
      intro hn fuel hfuel
      obtain ⟨-, hformulas⟩ := id hn
      have hargs : ∀ arg ∈ n.args, ∀ fuel, arg.operand.length ≤ fuel →
          Reads (Formula.read fuel) arg := by
        intro arg harg fuel hfuel
        have hformula := hformulas arg harg
        cases arg with
        | literal text span => exact reads_literal hformula hfuel
        | expr child =>
          obtain - | hchild := hformula
          rw [Argument.operand_expr] at hfuel
          exact ih child harg hchild fuel hfuel
      obtain ⟨rest, hrest⟩ := hn.exists_render
      cases fuel with
      | zero => simp [hrest] at hfuel
      | succ fuel =>
        rcases hn.shape_or_sign with ⟨s, hs, hcommand, hcount⟩ | ⟨s, hs, hcommand, hcount⟩
        · simp only [Shape.all, List.mem_cons] at hs
          rcases hs with rfl | rfl | hs
          · exact reads_fact hformulas hargs hfuel hcommand hcount
          · exact reads_pow hformulas hargs hfuel hcommand hcount
          · exact reads_plain hargs hfuel hs hcommand hcount
        · exact reads_sign hformulas hargs hfuel hs hcommand hcount
  cases a with
  | literal text span => exact reads_literal h hfuel
  | expr n =>
    obtain - | hn := h
    rw [Argument.operand_expr] at hfuel
    exact hnode n hn fuel hfuel

theorem decode_operand {a : Argument} (h : a.IsFormula) :
    Formula.decode a.operand = some a.bare := by
  have hread := reads_operand h (Nat.le_refl _) [] follows_nil
  rw [List.append_nil] at hread
  rw [Formula.decode, hread]

theorem Argument.operand_bare (a : Argument) : a.bare.operand = a.operand := by
  cases a with
  | literal text span =>
    rw [Argument.bare, Argument.operand_literal, Argument.operand_literal]
    exact Position.value.value_renderLiteral text default span
  | expr n =>
    rw [Argument.bare, Argument.operand_expr, Argument.operand_expr]
    exact Registry.standard.value_render_bare n

theorem operand_eq_iff {a b : Argument} (ha : a.IsFormula) (hb : b.IsFormula) :
    a.operand = b.operand ↔ a.bare = b.bare := by
  constructor
  · intro h
    have hdecode := congrArg Formula.decode h
    rw [decode_operand ha, decode_operand hb] at hdecode
    exact Option.some.inj hdecode
  · intro h
    rw [← a.operand_bare, h, b.operand_bare]

/-- **Formulas are written unambiguously.** Two formulas, operations or literals, are written alike
exactly if they have the same commands, literals and nesting. -/
theorem formula_unambiguous :
    (∀ n m : Node, n.IsFormula → m.IsFormula →
      ((Registry.standard.render n).value = (Registry.standard.render m).value ↔
        n.bare = m.bare)) ∧
      ∀ (a b : Argument) (command command' : Text), a.IsFormula → b.IsFormula →
        ((Registry.standard.renderArg command .value a).value =
          (Registry.standard.renderArg command' .value b).value ↔ a.bare = b.bare) := by
  constructor
  · intro n m hn hm
    have hiff := operand_eq_iff (.expr hn) (.expr hm)
    rwa [Argument.operand_expr, Argument.operand_expr, Argument.bare, Argument.bare,
      Argument.expr.injEq] at hiff
  · intro a b command command' ha hb
    rw [Argument.value_renderArg, Argument.value_renderArg]
    exact operand_eq_iff ha hb

/-- A power and a sum with a factorial, which start alike, and a numeral beside a name. -/
theorem formula_unambiguous_power :
    (Registry.standard.render ⟨"pow".toList, ⟨1, 4⟩,
        [.literal "e1".toList ⟨5, 7⟩, .literal "x_1".toList ⟨8, 11⟩], ⟨1, 11⟩, false⟩).value =
      "\\left(\\left(e1\\right)^\x7b\\left(x_\x7b_1\x7d\\right)\x7d\\right)".toList ∧
    (Registry.standard.render ⟨"pow".toList, ⟨1, 4⟩,
        [.literal "e1".toList ⟨5, 7⟩, .literal "x_1".toList ⟨8, 11⟩], ⟨1, 11⟩, false⟩).value ≠
      (Registry.standard.render ⟨"add".toList, ⟨1, 4⟩,
        [.expr ⟨"fact".toList, ⟨6, 10⟩, [.literal "e1".toList ⟨11, 13⟩], ⟨6, 13⟩, false⟩,
          .literal "x_1".toList ⟨15, 18⟩], ⟨1, 18⟩, true⟩).value ∧
    (Registry.standard.renderArg "add".toList .value (.literal "e".toList ⟨5, 6⟩)).value ≠
      (Registry.standard.renderArg "sqrt".toList .value (.literal "e_".toList ⟨6, 8⟩)).value := by
  obtain ⟨hnodes, harguments⟩ := formula_unambiguous
  have hpow : Node.IsFormula ⟨"pow".toList, ⟨1, 4⟩,
      [.literal "e1".toList ⟨5, 7⟩, .literal "x_1".toList ⟨8, 11⟩], ⟨1, 11⟩, false⟩ := by
    refine .intro (by decide) (List.forall_mem_cons.2 ⟨.literal (by decide) (by decide), ?_⟩)
    exact List.forall_mem_singleton.2 (.literal (by decide) (by decide))
  have hfact : Node.IsFormula
      ⟨"fact".toList, ⟨6, 10⟩, [.literal "e1".toList ⟨11, 13⟩], ⟨6, 13⟩, false⟩ :=
    .intro (by decide) (List.forall_mem_singleton.2 (.literal (by decide) (by decide)))
  have hadd : Node.IsFormula ⟨"add".toList, ⟨1, 4⟩,
      [.expr ⟨"fact".toList, ⟨6, 10⟩, [.literal "e1".toList ⟨11, 13⟩], ⟨6, 13⟩, false⟩,
        .literal "x_1".toList ⟨15, 18⟩], ⟨1, 18⟩, true⟩ := by
    refine .intro (by decide) (List.forall_mem_cons.2 ⟨.expr hfact, ?_⟩)
    exact List.forall_mem_singleton.2 (.literal (by decide) (by decide))
  refine ⟨by decide +kernel, fun halike => ?_, fun halike => ?_⟩
  · have hbare := (hnodes _ _ hpow hadd).1 halike
    rw [Node.bare_eq, Node.bare_eq] at hbare
    exact absurd (congrArg Node.command hbare) (by decide)
  · have hbare := (harguments _ _ _ _ (.literal (by decide) (by decide))
      (.literal (by decide) (by decide))).1 halike
    rw [Argument.bare_literal, Argument.bare_literal] at hbare
    exact absurd (Argument.literal.inj hbare).1 (by decide)

end GraphTex
