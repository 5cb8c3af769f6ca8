import GraphTex.Proofs.Names
import Mathlib.Data.List.TakeWhile

/-!
# The grammar of the output

What commands write is made of plain characters, of control words that no letter follows, and of
pairs of delimiters with such text between them (`IsWritten`). Names and numerals are of this form.
A template is seamless if its own texts are and no letter can follow one of its control words
directly (`Template.isSeamless`). This is seen from the ends of its parts, where a place for a
fragment counts as a letter in front, as a control word at its end, and as nothing at all. Every
template but that of `latex` is seamless, so a tree without `latex` that is rendered without report
is written in this grammar (`isWritten_render`), and so is a whole output.
-/

namespace GraphTex

open Latex

/-- A place in two texts in a row is in the first or in the second. -/
theorem cut_append {s t before after : Text} {c : Char} (h : s ++ t = before ++ c :: after) :
    (∃ k, s = before ++ c :: k ∧ after = k ++ t) ∨ ∃ k, before = s ++ k ∧ t = k ++ c :: after := by
  rcases List.append_eq_append_iff.1 h with hsecond | ⟨m, hs, hm⟩
  · exact .inr hsecond
  · cases m with
    | nil =>
      rw [List.append_nil] at hs
      exact .inr ⟨[], by rw [hs, List.append_nil], hm.symm⟩
    | cons d k =>
      obtain ⟨rfl, rfl⟩ := List.cons.inj hm
      exact .inl ⟨k, hs, rfl⟩

/-! ### Where control words end -/

namespace Latex

theorem endsInControlWord_iff {t : Text} :
    endsInControlWord t = true ↔
      ∃ before letters, t = before ++ '\\' :: letters ∧ letters ≠ [] ∧
        ∀ c ∈ letters, c.isAlpha = true := by
  unfold endsInControlWord
  rw [Bool.and_eq_true, beq_iff_eq]
  constructor
  · rintro ⟨hletters, hslash⟩
    obtain ⟨rest, hrest⟩ := List.head?_eq_some_iff.1 hslash
    have hsplit := List.takeWhile_append_dropWhile (p := Char.isAlpha) (l := t.reverse)
    rw [hrest] at hsplit
    refine ⟨rest.reverse, (t.reverse.takeWhile Char.isAlpha).reverse, ?_, ?_, ?_⟩
    · have hreverse := congrArg List.reverse hsplit
      simpa using hreverse.symm
    · simpa using hletters
    · intro c hc
      exact List.mem_takeWhile_imp (List.mem_reverse.1 hc)
  · rintro ⟨before, letters, rfl, hne, hletters⟩
    have hall : ∀ c ∈ letters.reverse, c.isAlpha = true := fun c hc =>
      hletters c (List.mem_reverse.1 hc)
    have hslash : ¬ ('\\'.isAlpha = true) := by decide
    rw [List.reverse_append, List.reverse_cons, List.append_assoc,
      List.takeWhile_append_of_pos hall, List.dropWhile_append_of_pos hall, List.singleton_append,
      List.takeWhile_cons_of_neg hslash, List.dropWhile_cons_of_neg hslash]
    simp [hne]

theorem endsInControlWord_append_left (s : Text) {t : Text} (h : endsInControlWord t = true) :
    endsInControlWord (s ++ t) = true := by
  obtain ⟨before, letters, rfl, hne, hletters⟩ := endsInControlWord_iff.1 h
  exact endsInControlWord_iff.2 ⟨s ++ before, letters, by simp, hne, hletters⟩

/-- Two texts in a row end in a control word only if the second one does, or if it is letters that
go on with the first. -/
theorem endsInControlWord_append {s t : Text} (h : endsInControlWord (s ++ t) = true)
    (ht : t ≠ []) :
    endsInControlWord t = true ∨
      startsWithLetter t = true ∧ (endsInControlWord s = true ∨ s.getLast? = some '\\') := by
  obtain ⟨before, letters, heq, hne, hletters⟩ := endsInControlWord_iff.1 h
  rcases cut_append heq with ⟨k, hs, rfl⟩ | ⟨k, -, htext⟩
  · -- the backslash is in the first text, so the second one is letters only
    obtain ⟨c, r, rfl⟩ := List.exists_cons_of_ne_nil ht
    have hc : c.isAlpha = true := hletters c (by simp)
    refine .inr ⟨by simpa [startsWithLetter] using hc, ?_⟩
    by_cases hnil : k = []
    · right
      rw [hs, hnil, List.getLast?_concat]
    · exact .inl (endsInControlWord_iff.2
        ⟨before, k, hs, hnil, fun e he => hletters e (List.mem_append_left _ he)⟩)
  · exact .inl (endsInControlWord_iff.2 ⟨k, letters, htext, hne, hletters⟩)

theorem startsWithLetter_dropWhile (t : Text) :
    startsWithLetter (t.dropWhile Char.isAlpha) = false := by
  have hhead := List.head?_dropWhile_not Char.isAlpha t
  unfold startsWithLetter
  cases hdrop : (t.dropWhile Char.isAlpha).head? with
  | none => rfl
  | some c =>
    rw [hdrop] at hhead
    simpa using hhead

/-- A non-empty text starts with a letter or does not, whatever follows it. -/
theorem startsWithLetter_append {s : Text} (hs : s ≠ []) (t : Text) :
    startsWithLetter (s ++ t) = startsWithLetter s := by
  obtain ⟨c, s, rfl⟩ := List.exists_cons_of_ne_nil hs
  rfl

/-- The letters in front of a text end inside the text or in front of what follows. -/
theorem takeWhile_isAlpha_append {s t : Text}
    (h : s.all Char.isAlpha = false ∨ startsWithLetter t = false) :
    (s ++ t).takeWhile Char.isAlpha = s.takeWhile Char.isAlpha := by
  induction s with
  | nil =>
    have hletter : startsWithLetter t = false := by simpa using h
    cases t with
    | nil => rfl
    | cons c t =>
      exact List.takeWhile_cons_of_neg (by simpa [startsWithLetter] using hletter)
  | cons c s ih =>
    by_cases hc : c.isAlpha = true
    · have hrest : s.all Char.isAlpha = false ∨ startsWithLetter t = false := by
        simpa [hc] using h
      rw [List.cons_append, List.takeWhile_cons_of_pos hc, List.takeWhile_cons_of_pos hc, ih hrest]
    · rw [List.cons_append, List.takeWhile_cons_of_neg hc, List.takeWhile_cons_of_neg hc]

/-- The letters of a control word end where the word does, if no letter follows it. -/
theorem takeWhile_isAlpha_word {letters t : Text} (hletters : ∀ c ∈ letters, c.isAlpha = true)
    (hend : startsWithLetter t = false) : (letters ++ t).takeWhile Char.isAlpha = letters := by
  rw [takeWhile_isAlpha_append (.inr hend), List.takeWhile_eq_self_iff.2 hletters]

end Latex

/-! ### The grammar -/

/-- The control words that templates spell out. -/
def controlWords : List String :=
  ["left", "right", "to", "cdot", "frac", "sqrt", "log", "ln", "operatorname", "sin", "cos", "tan",
    "sinh", "cosh", "tanh", "arcsin", "arccos", "arctan", "arcsinh", "arccosh", "arctanh", "min",
    "max", "ge", "le", "int", "sum", "prod", "alpha", "beta", "theta", "pi", "tau", "phi", "infty"]

/-- The letters spell a control word that is no part of a delimiter. -/
def isPlainWord (letters : Text) : Bool :=
  isAmong letters controlWords && !isAmong letters ["left", "right"]

/-- The character is neither a delimiter nor a backslash. -/
def isPlainChar (c : Char) : Bool := !"\\()[]\x7b\x7d".toList.contains c

/-- Plain characters, plain control words, and pairs of delimiters around such text. -/
inductive IsWritten : Text → Prop
  | nil : IsWritten []
  | char {c : Char} {t : Text} (hc : isPlainChar c = true) (h : IsWritten t) : IsWritten (c :: t)
  | word {letters t : Text} (hword : isPlainWord letters = true) (hend : startsWithLetter t = false)
      (h : IsWritten t) : IsWritten ('\\' :: (letters ++ t))
  | enclosed (d : Delimiter) {s t : Text} (hs : IsWritten s) (h : IsWritten t) :
      IsWritten (d.opening ++ (s ++ (d.closing ++ t)))

theorem isAmong_iff {letters : Text} {names : List String} :
    isAmong letters names = true ↔ ∃ name ∈ names, name.toList = letters := by
  simp [isAmong]

theorem mem_controlWords_of_plain {letters : Text} (h : isPlainWord letters = true) :
    ∃ name ∈ controlWords, name.toList = letters := by
  rw [isPlainWord, Bool.and_eq_true] at h
  exact isAmong_iff.1 h.1

theorem ne_nil_of_isPlainWord {letters : Text} (h : isPlainWord letters = true) : letters ≠ [] := by
  obtain ⟨name, hname, rfl⟩ := mem_controlWords_of_plain h
  exact (by decide : ∀ name ∈ controlWords, name.toList ≠ []) name hname

theorem isAlpha_of_isPlainWord {letters : Text} (h : isPlainWord letters = true) :
    ∀ c ∈ letters, c.isAlpha = true := by
  obtain ⟨name, hname, rfl⟩ := mem_controlWords_of_plain h
  have hletters : ∀ name ∈ controlWords, name.toList.all Char.isAlpha = true := by decide
  exact List.all_eq_true.1 (hletters name hname)

theorem Delimiter.opening_ne_nil (d : Delimiter) : d.opening ≠ [] := by cases d <;> decide

theorem Delimiter.closing_ne_nil (d : Delimiter) : d.closing ≠ [] := by cases d <;> decide

theorem Delimiter.not_startsWithLetter_opening (d : Delimiter) (t : Text) :
    startsWithLetter (d.opening ++ t) = false := by
  cases d <;> rfl

theorem Delimiter.not_startsWithLetter_closing (d : Delimiter) (t : Text) :
    startsWithLetter (d.closing ++ t) = false := by
  cases d <;> rfl

theorem Delimiter.not_endsInControlWord (d : Delimiter) (s : Text) :
    endsInControlWord (s ++ d.closing) = false := by
  have hletter := d.not_startsWithLetter_closing []
  have hclosing : endsInControlWord d.closing = false := by cases d <;> decide
  rw [List.append_nil] at hletter
  rw [← Bool.not_eq_true]
  intro h
  rcases endsInControlWord_append h d.closing_ne_nil with h | ⟨h, -⟩
  · rw [hclosing] at h
    exact absurd h (by simp)
  · rw [hletter] at h
    exact absurd h (by simp)

namespace IsWritten

variable {s t : Text}

/-- A written text does not end in a backslash. -/
theorem getLast?_ne (h : IsWritten t) : t.getLast? ≠ some '\\' := by
  induction h with
  | nil => simp
  | @char c t hc _ ih =>
    have hne : c ≠ '\\' := by
      rintro rfl
      exact absurd hc (by decide)
    rw [List.getLast?_cons]
    cases hlast : t.getLast? with
    | none => simpa using hne
    | some d => simpa [hlast] using ih
  | @word letters t hword _ _ ih =>
    obtain ⟨name, hname, rfl⟩ := mem_controlWords_of_plain hword
    have hlast : ('\\' :: name.toList).getLast? ≠ some '\\' :=
      (by decide : ∀ name ∈ controlWords, ('\\' :: name.toList).getLast? ≠ some '\\') name hname
    rw [← List.cons_append, List.getLast?_append]
    cases hrest : t.getLast? with
    | none => simpa using hlast
    | some d => simpa [hrest] using ih
  | @enclosed d s t _ _ _ ih =>
    have hlast : d.closing.getLast? ≠ some '\\' := by cases d <;> decide
    rw [← List.append_assoc, ← List.append_assoc, List.getLast?_append, List.getLast?_append]
    cases hrest : t.getLast? with
    | none =>
      cases hclosing : d.closing.getLast? with
      | none => exact absurd (List.getLast?_eq_none_iff.1 hclosing) d.closing_ne_nil
      | some e => simpa [hclosing] using hlast
    | some e => simpa [hrest] using ih

/-- What may follow a control word with a text behind it is not taken for letters of the word, even
if the text is empty. -/
theorem not_startsWithLetter_append {letters : Text} (hword : isPlainWord letters = true)
    (hend : startsWithLetter s = false)
    (hseam : endsInControlWord ('\\' :: (letters ++ s)) = true → startsWithLetter t = false) :
    startsWithLetter (s ++ t) = false := by
  by_cases hnil : s = []
  · rw [hnil, List.nil_append]
    refine hseam (endsInControlWord_iff.2
      ⟨[], letters, ?_, ne_nil_of_isPlainWord hword, isAlpha_of_isPlainWord hword⟩)
    rw [hnil, List.append_nil, List.nil_append]
  · rwa [startsWithLetter_append hnil]

/-- Written texts in a row are written, if no letter follows a control word directly. -/
theorem append (hs : IsWritten s) (ht : IsWritten t)
    (hseam : endsInControlWord s = true → startsWithLetter t = false) : IsWritten (s ++ t) := by
  induction hs with
  | nil => exact ht
  | @char c s hc _ ih =>
    exact .char hc (ih fun h => hseam (endsInControlWord_append_left [c] h))
  | @word letters s hword hend _ ih =>
    rw [List.cons_append, List.append_assoc]
    exact .word hword (not_startsWithLetter_append hword hend hseam)
      (ih fun h => hseam (endsInControlWord_append_left ('\\' :: letters) h))
  | @enclosed d body s hbody _ _ ih =>
    simp only [List.append_assoc]
    refine .enclosed d hbody (ih fun h => hseam ?_)
    rw [← List.append_assoc, ← List.append_assoc]
    exact endsInControlWord_append_left _ h

theorem enclose (d : Delimiter) (h : IsWritten t) : IsWritten (d.opening ++ t ++ d.closing) := by
  have henclosed := IsWritten.enclosed d h .nil
  rwa [List.append_nil, ← List.append_assoc] at henclosed

theorem push (hs : IsWritten s) (ht : IsWritten t) : IsWritten (push s t) := by
  unfold Latex.push
  split_ifs with hseam
  · exact hs.append (.char (by decide) ht) fun _ => rfl
  · refine hs.append ht fun hends => ?_
    simpa [hends] using hseam

theorem join {separator : Text} {parts : List Text} (hseparator : IsWritten separator)
    (hparts : ∀ part ∈ parts, IsWritten part) : IsWritten (join separator parts) := by
  have hfold : ∀ (rest : List Text) (written : Text), IsWritten written →
      (∀ part ∈ rest, IsWritten part) →
      IsWritten (rest.foldl (fun written part => Latex.push (Latex.push written separator) part)
        written) := by
    intro rest
    induction rest with
    | nil => exact fun written h _ => h
    | cons part rest ih =>
      intro written h hrest
      have hpart := hrest part List.mem_cons_self
      exact ih _ ((h.push hseparator).push hpart) fun p hp => hrest p (List.mem_cons_of_mem part hp)
  cases parts with
  | nil => exact .nil
  | cons first rest =>
    exact hfold rest first (hparts first List.mem_cons_self) fun p hp =>
      hparts p (List.mem_cons_of_mem first hp)

/-- Fragments one a line. -/
theorem lines {fragments : List Text} (h : ∀ fragment ∈ fragments, IsWritten fragment) :
    IsWritten (fragments.flatMap fun fragment => fragment ++ ['\n']) := by
  induction fragments with
  | nil => exact .nil
  | cons fragment fragments ih =>
    have hlater := ih fun f hf => h f (List.mem_cons_of_mem fragment hf)
    rw [List.flatMap_cons, List.append_assoc]
    exact (h fragment List.mem_cons_self).append (.char (by decide) hlater) fun _ => rfl

end IsWritten

/-! ### Literals -/

theorem isPlainChar_of_literal {c : Char}
    (h : c.isAlpha = true ∨ c.isDigit = true ∨ c = '_' ∨ c = '.' ∨ c = '-') :
    isPlainChar c = true := by
  -- computed along the list, since deciding `∀ d ∈ ...` may run over all characters
  have hspecial : ("\\()[]\x7b\x7d".toList.all fun d =>
      !(d.isAlpha || d.isDigit || d == '_' || d == '.' || d == '-')) = true := by decide
  rw [isPlainChar, Bool.not_eq_true', ← Bool.not_eq_true, List.contains_iff_mem]
  intro hc
  have hnone := List.all_eq_true.1 hspecial c hc
  simp only [Bool.not_eq_true', Bool.or_eq_false_iff, beq_eq_false_iff_ne] at hnone
  obtain ⟨⟨⟨⟨hletter, hdigit⟩, hline⟩, hpoint⟩, hminus⟩ := hnone
  rcases h with h | h | h | h | h
  · exact absurd h (by simp [hletter])
  · exact absurd h (by simp [hdigit])
  · exact hline h
  · exact hpoint h
  · exact hminus h

theorem IsWritten.of_chars {t : Text} (h : ∀ c ∈ t, isPlainChar c = true) : IsWritten t := by
  induction t with
  | nil => exact .nil
  | cons c t ih =>
    exact .char (h c List.mem_cons_self) (ih fun d hd => h d (List.mem_cons_of_mem c hd))

theorem IsNumeral.isWritten {t : Text} (h : IsNumeral t) : IsWritten t := by
  refine .of_chars fun c hc => isPlainChar_of_literal ?_
  rcases h.2 c hc with hdigit | hpoint | he | hminus
  · exact .inr (.inl hdigit)
  · exact .inr (.inr (.inr (.inl hpoint)))
  · rw [he]
    decide
  · exact .inr (.inr (.inr (.inr hminus)))

theorem IsName.isWritten {t : Text} (h : IsName t) (span : Span) :
    IsWritten (Position.renderName t span).value := by
  obtain ⟨first, rest, rfl, hfirst, hrest⟩ := id h
  have hplain : isPlainChar first = true :=
    isPlainChar_of_literal (hfirst.imp_right fun hc => .inr (.inl hc))
  have hbody : IsWritten rest := .of_chars fun c hc => by
    rcases hrest c hc with hletter | hdigit | hline
    · exact isPlainChar_of_literal (.inl hletter)
    · exact isPlainChar_of_literal (.inr (.inl hdigit))
    · exact isPlainChar_of_literal (.inr (.inr (.inl hline)))
  rw [renderName_of_isName h, Logged.value_pure]
  split_ifs with hone
  · exact .char hplain .nil
  · exact .char hplain (.char (by decide) (hbody.enclose .braces))

theorem Position.isWritten_renderLiteral {position : Position} (hposition : position ≠ .verbatim)
    {text : Text} {span : Span} (h : (position.renderLiteral text span).reports = []) :
    IsWritten (position.renderLiteral text span).value := by
  have hname : (Position.renderName text span).reports = [] →
      IsWritten (Position.renderName text span).value := fun hreports =>
    ((reports_renderName text span).1 hreports).isWritten span
  cases position with
  | value =>
    rw [Position.renderLiteral] at h ⊢
    split_ifs at h ⊢ with hnumeral
    · exact ((isNumeral_iff text).1 hnumeral).isWritten
    · exact hname h
  | name role => exact hname h
  | verbatim => exact absurd rfl hposition

/-! ### Templates -/

/-- The text has plain characters and plain control words only. -/
def isPlainText : Text → Bool
  | [] => true
  | c :: t =>
    (if c = '\\' then isPlainWord (t.takeWhile Char.isAlpha) else isPlainChar c) && isPlainText t

theorem isPlainText_of_append {s t : Text} (h : isPlainText (s ++ t) = true) :
    isPlainText t = true := by
  induction s with
  | nil => exact h
  | cons c s ih =>
    rw [List.cons_append, isPlainText, Bool.and_eq_true] at h
    exact ih h.2

theorem IsWritten.of_plain {t : Text} (h : isPlainText t = true) : IsWritten t := by
  induction hn : t.length using Nat.strong_induction_on generalizing t with
  | _ n ih =>
    cases t with
    | nil => exact .nil
    | cons c t =>
      rw [isPlainText, Bool.and_eq_true] at h
      obtain ⟨hfirst, hrest⟩ := h
      split_ifs at hfirst with hc
      · -- the control word goes to the end of the letters, and what is behind is shorter
        have hsplit := List.takeWhile_append_dropWhile (p := Char.isAlpha) (l := t)
        have hlength := (List.dropWhile_sublist Char.isAlpha (l := t)).length_le
        rw [← hsplit] at hrest
        have hlater := ih (t.dropWhile Char.isAlpha).length (by
          rw [List.length_cons] at hn
          omega) (isPlainText_of_append hrest) rfl
        have hword := IsWritten.word hfirst (startsWithLetter_dropWhile t) hlater
        rwa [hsplit, ← hc] at hword
      · exact .char hfirst (ih t.length (by simp [← hn]) hrest rfl)

namespace Template

/-- What the template writes may be empty. -/
def mayBeEmpty : Template → Bool
  | text t => t.isEmpty
  | hole _ | joined _ _ => true
  | enclosed _ _ => false
  | append left right => left.mayBeEmpty && right.mayBeEmpty

/-- What the template writes may start with a letter. -/
def mayStartWithLetter : Template → Bool
  | text t => startsWithLetter t
  | hole _ | joined _ _ => true
  | enclosed _ _ => false
  | append left right => left.mayStartWithLetter || (left.mayBeEmpty && right.mayStartWithLetter)

/-- What the template writes may end in a control word. -/
def mayEndInWord : Template → Bool
  | text t => endsInControlWord t
  | hole _ | joined _ _ => true
  | enclosed _ _ => false
  | append left right => right.mayEndInWord || (right.mayBeEmpty && left.mayEndInWord)

/-- The texts of the template are plain, and no letter can follow a control word directly. -/
def isSeamless : Template → Bool
  | text t => isPlainText t
  | hole _ => true
  | joined _ separator => isPlainText separator
  | enclosed _ body => body.isSeamless
  | append left right =>
    left.isSeamless && right.isSeamless && !(left.mayEndInWord && right.mayStartWithLetter)

variable {fragments : List Text}

theorem mayBeEmpty_of_fill {t : Template} (h : t.fill fragments = []) : t.mayBeEmpty = true := by
  induction t with
  | text t => simpa [fill, mayBeEmpty] using h
  | hole index => rfl
  | joined first separator => rfl
  | enclosed d body _ =>
    rw [fill, List.append_assoc, List.append_eq_nil_iff] at h
    exact absurd h.1 d.opening_ne_nil
  | append left right ihleft ihright =>
    rw [fill, List.append_eq_nil_iff] at h
    rw [mayBeEmpty, ihleft h.1, ihright h.2, Bool.and_self]

theorem mayStartWithLetter_of_fill {t : Template}
    (h : startsWithLetter (t.fill fragments) = true) : t.mayStartWithLetter = true := by
  induction t with
  | text t => exact h
  | hole index => rfl
  | joined first separator => rfl
  | enclosed d body _ =>
    rw [fill, List.append_assoc, d.not_startsWithLetter_opening] at h
    exact absurd h (by simp)
  | append left right ihleft ihright =>
    rw [fill] at h
    rw [mayStartWithLetter, Bool.or_eq_true, Bool.and_eq_true]
    by_cases hnil : left.fill fragments = []
    · rw [hnil, List.nil_append] at h
      exact .inr ⟨mayBeEmpty_of_fill hnil, ihright h⟩
    · rw [startsWithLetter_append hnil] at h
      exact .inl (ihleft h)

/-- **A seamless template writes what its fragments are written in**, and its end is seen from its
parts. -/
theorem isWritten_fill {t : Template} (h : t.isSeamless = true)
    (hfragments : ∀ fragment ∈ fragments, IsWritten fragment) :
    IsWritten (t.fill fragments) ∧
      (endsInControlWord (t.fill fragments) = true → t.mayEndInWord = true) := by
  induction t with
  | text t => exact ⟨.of_plain h, id⟩
  | hole index =>
    refine ⟨?_, fun _ => rfl⟩
    rw [fill]
    cases hfragment : fragments[index]? with
    | none => exact .nil
    | some fragment => exact hfragments fragment (List.mem_of_getElem? hfragment)
  | joined first separator =>
    exact ⟨.join (.of_plain h) fun part hpart => hfragments part (List.mem_of_mem_drop hpart),
      fun _ => rfl⟩
  | enclosed d body ih =>
    refine ⟨(ih h).1.enclose d, fun hends => ?_⟩
    rw [fill, d.not_endsInControlWord] at hends
    exact absurd hends (by simp)
  | append left right ihleft ihright =>
    simp only [isSeamless, Bool.and_eq_true, Bool.not_eq_true', Bool.and_eq_false_iff] at h
    obtain ⟨⟨hleft, hright⟩, hcheck⟩ := h
    obtain ⟨hwritten, hends⟩ := ihleft hleft
    obtain ⟨hwritten', hends'⟩ := ihright hright
    have hseam : endsInControlWord (left.fill fragments) = true →
        startsWithLetter (right.fill fragments) = false := by
      intro hend
      rw [← Bool.not_eq_true]
      intro hletter
      rw [hends hend, mayStartWithLetter_of_fill hletter] at hcheck
      exact absurd hcheck (by simp)
    refine ⟨hwritten.append hwritten' hseam, fun hend => ?_⟩
    rw [fill] at hend
    rw [mayEndInWord, Bool.or_eq_true, Bool.and_eq_true]
    by_cases hnil : right.fill fragments = []
    · rw [hnil, List.append_nil] at hend
      exact .inr ⟨mayBeEmpty_of_fill hnil, hends hend⟩
    · rcases endsInControlWord_append hend hnil with hend | ⟨hletter, hend | hlast⟩
      · exact .inl (hends' hend)
      · rw [hseam hend] at hletter
        exact absurd hletter (by simp)
      · exact absurd hlast hwritten.getLast?_ne

end Template

/-! ### Rules -/

/-- The template of the rule is seamless, and no literal is kept as it is. -/
def Rule.isSeamless (rule : Rule) : Bool :=
  rule.template.isSeamless &&
    rule.slots.all (fun slot => slot.position != .verbatim && isPlainText slot.missing) &&
    rule.rest != some .verbatim

/-- **Every rule of the catalogue but that of `latex` is seamless.** -/
theorem standard_seamless : ∀ c ∈ Registry.standard.commands, c.name ≠ "latex".toList →
    c.rule.isSeamless = true := by
  decide +kernel

section Rules

variable {rule : Rule} {args : List Argument} {position : Position} {arg : Argument}

theorem Rule.slot_of_isSeamless (h : rule.isSeamless = true) {slot : Slot}
    (hslot : slot ∈ rule.slots) : slot.position ≠ .verbatim ∧ IsWritten slot.missing := by
  simp only [Rule.isSeamless, Bool.and_eq_true, List.all_eq_true, bne_iff_ne] at h
  obtain ⟨hposition, hmissing⟩ := h.1.2 slot hslot
  exact ⟨hposition, .of_plain hmissing⟩

/-- A seamless rule looks at no argument as at text to be kept. -/
theorem Rule.position_ne_verbatim (h : rule.isSeamless = true)
    (hplace : (position, arg) ∈ rule.places args) : position ≠ .verbatim := by
  obtain ⟨i, -, hposition⟩ := Slot.mem_places.1 hplace
  rw [Slot.positionAt, Option.or_eq_some_iff] at hposition
  rcases hposition with hfirst | ⟨-, hrest⟩
  · obtain ⟨slot, hslot, rfl⟩ := Option.map_eq_some_iff.1 hfirst
    exact (Rule.slot_of_isSeamless h (List.mem_of_getElem? hslot)).1
  · rintro rfl
    simp [Rule.isSeamless, hrest] at h

end Rules

/-! ### Trees -/

/-- **The output is written in its grammar.** A tree that is rendered without report and has no
`latex` in it is written in plain text and pairs of delimiters. -/
theorem isWritten_render {n : Node} (h : (Registry.standard.render n).reports = [])
    (hlatex : ∀ m ∈ n.nodes, m.command ≠ "latex".toList) :
    IsWritten (Registry.standard.render n).value := by
  induction n using Node.induction with
  | node n ih =>
    cases hget : Registry.standard.get? n.command with
    | none =>
      rw [Registry.render_unknown hget] at h
      exact absurd h (by simp)
    | some c =>
      obtain ⟨hmem, hname⟩ := Registry.get?_eq_some hget
      have hroot : n.command ≠ "latex".toList := hlatex n (Node.mem_nodes.2 (.inl rfl))
      have hseamless := standard_seamless c hmem (by rwa [hname])
      have htemplate : c.rule.template.isSeamless = true := by
        simp only [Rule.isSeamless, Bool.and_eq_true] at hseamless
        exact hseamless.1.1
      rw [Registry.reports_render_known hget, List.append_eq_nil_iff, List.append_eq_nil_iff,
        List.flatMap_eq_nil_iff] at h
      rw [Registry.render_known hget]
      refine (Template.isWritten_fill htemplate fun fragment hfragment => ?_).1
      rw [Registry.value_renderArgs, List.mem_append, List.mem_map, List.mem_map] at hfragment
      rcases hfragment with ⟨⟨position, arg⟩, hplace, rfl⟩ | ⟨slot, hslot, rfl⟩
      · have hreports : (Registry.standard.renderArg n.command position arg).reports = [] :=
          h.2.2 (position, arg) hplace
        cases arg with
        | literal text span =>
          rw [Registry.renderArg_literal] at hreports ⊢
          have hposition := Rule.position_ne_verbatim hseamless hplace
          exact Position.isWritten_renderLiteral hposition hreports
        | expr child =>
          rw [Registry.renderArg_expr, List.append_eq_nil_iff] at hreports
          rw [Registry.renderArg_expr]
          obtain ⟨i, hi, -⟩ := Slot.mem_places.1 hplace
          have hchild : .expr child ∈ n.args := List.mem_of_getElem? hi
          exact ih child hchild hreports.2 fun m hm =>
            hlatex m (Node.mem_nodes.2 (.inr ⟨child, hchild, hm⟩))
      · exact (Rule.slot_of_isSeamless hseamless (List.mem_of_mem_drop hslot)).2

end GraphTex
