import GraphTex.Proofs.Written

/-!
# Delimiters are nested

The delimiters of a text are read from left to right: where the text goes on with one of them, it is
read and stepped over, and all other characters are skipped (`marks`). In a text that is written in
the grammar of the output these are the pairs of the grammar, so they are properly nested
(`IsWritten.nested`), and parentheses stand nowhere else. Control words matter here too: the word
`\le` with the letters `ft(` behind it would be read as a delimiter.
-/

namespace GraphTex

open Latex

/-- A left or a right delimiter. -/
inductive Mark where
  | opening (d : Delimiter)
  | closing (d : Delimiter)
  deriving DecidableEq, Repr

/-- The delimiter as it is written. -/
def Mark.text : Mark → Text
  | .opening d => d.opening
  | .closing d => d.closing

/-- All delimiters. No one of them is the beginning of another. -/
def Mark.all : List Mark :=
  [.braces, .brackets, .tallParens, .tallBrackets, .tallBraces].flatMap fun d =>
    [.opening d, .closing d]

/-- The delimiter that a text starts with. -/
def markAt? (t : Text) : Option Mark := Mark.all.find? fun m => m.text.isPrefixOf t

/-- The delimiters of a text behind the given number of characters. -/
def marksFrom : Nat → Text → List Mark
  | _, [] => []
  | skip + 1, _ :: t => marksFrom skip t
  | 0, c :: t =>
    match markAt? (c :: t) with
    | some m => m :: marksFrom (m.text.length - 1) t
    | none => marksFrom 0 t

/-- The delimiters of a text, in order. -/
def marks (t : Text) : List Mark := marksFrom 0 t

/-- A properly nested word of delimiters: each left one is closed by a right one of its kind. -/
inductive Nested : List Mark → Prop
  | nil : Nested []
  | pair (d : Delimiter) {s t : List Mark} (hs : Nested s) (ht : Nested t) :
      Nested (.opening d :: (s ++ .closing d :: t))

example : marks "\\sqrt[3]\x7b\\left(x\\right)\x7d".toList =
    [.opening .brackets, .closing .brackets, .opening .braces, .opening .tallParens,
      .closing .tallParens, .closing .braces] := by decide

/-! ### Reading delimiters -/

theorem marksFrom_length (s t : Text) : marksFrom s.length (s ++ t) = marks t := by
  induction s with
  | nil => rfl
  | cons c s ih => exact ih

theorem markAt?_text (m : Mark) (t : Text) : markAt? (m.text ++ t) = some m := by
  cases m with
  | opening d => cases d <;> rfl
  | closing d => cases d <;> rfl

/-- A delimiter starts with a special character, and behind a backslash it has a word that is no
plain one and that ends inside it. -/
theorem Mark.text_eq (m : Mark) :
    ∃ c r, m.text = c :: r ∧ isPlainChar c = false ∧
      (c = '\\' →
        isPlainWord (r.takeWhile Char.isAlpha) = false ∧ r.all Char.isAlpha = false) := by
  cases m with
  | opening d => cases d <;> exact ⟨_, _, rfl, by decide, by decide⟩
  | closing d => cases d <;> exact ⟨_, _, rfl, by decide, by decide⟩

theorem marks_text (m : Mark) (t : Text) : marks (m.text ++ t) = m :: marks t := by
  have hmark := markAt?_text m t
  have hskip := marksFrom_length m.text.tail t
  obtain ⟨c, r, hr, -⟩ := m.text_eq
  rw [hr] at hmark hskip ⊢
  rw [List.cons_append] at hmark ⊢
  rw [marks, marksFrom, hmark]
  simpa [hr] using hskip

theorem marks_cons_of_none {c : Char} {t : Text} (h : markAt? (c :: t) = none) :
    marks (c :: t) = marks t := by
  rw [marks, marksFrom, h]
  rfl

theorem markAt?_eq_none {t : Text} (h : ∀ (m : Mark) (u : Text), t ≠ m.text ++ u) :
    markAt? t = none := by
  rw [markAt?, List.find?_eq_none]
  intro m _ hm
  obtain ⟨u, hu⟩ := List.isPrefixOf_iff_prefix.1 hm
  exact h m u hu.symm

/-- A plain character is no part of a delimiter. -/
theorem marks_char {c : Char} (hc : isPlainChar c = true) (t : Text) :
    marks (c :: t) = marks t := by
  refine marks_cons_of_none (markAt?_eq_none fun m u heq => ?_)
  obtain ⟨d, r, hr, hd, -⟩ := m.text_eq
  rw [hr, List.cons_append] at heq
  rw [(List.cons.inj heq).1, hd] at hc
  exact absurd hc (by simp)

theorem marks_letters {letters : Text} (h : ∀ c ∈ letters, c.isAlpha = true) (t : Text) :
    marks (letters ++ t) = marks t := by
  induction letters with
  | nil => rfl
  | cons c letters ih =>
    rw [List.cons_append, marks_char (isPlainChar_of_literal (.inl (h c List.mem_cons_self))),
      ih fun d hd => h d (List.mem_cons_of_mem c hd)]

/-- A plain control word is no part of a delimiter, if no letter follows it. -/
theorem marks_word {letters t : Text} (hword : isPlainWord letters = true)
    (hend : startsWithLetter t = false) : marks ('\\' :: (letters ++ t)) = marks t := by
  have hletters := isAlpha_of_isPlainWord hword
  rw [marks_cons_of_none, marks_letters hletters]
  refine markAt?_eq_none fun m u heq => ?_
  -- a delimiter at the backslash would have the same letters behind it, and they are no plain word
  obtain ⟨c, r, hr, -, hslash⟩ := m.text_eq
  rw [hr, List.cons_append] at heq
  obtain ⟨hc, hrest⟩ := List.cons.inj heq
  obtain ⟨hplain, hother⟩ := hslash hc.symm
  have hsame : letters = r.takeWhile Char.isAlpha := by
    rw [← takeWhile_isAlpha_word hletters hend, hrest, takeWhile_isAlpha_append (.inl hother)]
  rw [← hsame, hword] at hplain
  exact absurd hplain (by simp)

/-- The delimiters of a text between two of them, if none runs over the end of the text. -/
theorem marks_pair (d : Delimiter) {s : Text}
    (h : ∀ u, marks (s ++ (d.closing ++ u)) = marks s ++ marks (d.closing ++ u)) (t : Text) :
    marks (d.opening ++ (s ++ (d.closing ++ t))) =
      .opening d :: (marks s ++ .closing d :: marks t) := by
  have hclosing : marks (d.closing ++ t) = .closing d :: marks t := marks_text (.closing d) t
  rw [← hclosing, ← h t]
  exact marks_text (.opening d) _

/-! ### The delimiters of a written text -/

namespace IsWritten

variable {s t : Text}

/-- The delimiters of a written text and of what follows it. -/
theorem marks_append (h : IsWritten s)
    (hseam : endsInControlWord s = true → startsWithLetter t = false) :
    marks (s ++ t) = marks s ++ marks t := by
  induction h generalizing t with
  | nil => rfl
  | @char c s hc _ ih =>
    rw [List.cons_append, marks_char hc, marks_char hc,
      ih fun h => hseam (endsInControlWord_append_left [c] h)]
  | @word letters s hword hend _ ih =>
    rw [List.cons_append, List.append_assoc,
      marks_word hword (not_startsWithLetter_append hword hend hseam), marks_word hword hend,
      ih fun h => hseam (endsInControlWord_append_left ('\\' :: letters) h)]
  | @enclosed d body s _ _ ihbody ih =>
    -- behind the right delimiter only the end of the last text matters
    have hlater : endsInControlWord s = true → startsWithLetter t = false := by
      intro h
      apply hseam
      rw [← List.append_assoc, ← List.append_assoc]
      exact endsInControlWord_append_left _ h
    have hpair := marks_pair d fun u => ihbody fun _ => d.not_startsWithLetter_closing u
    simp only [List.append_assoc, hpair, ih hlater, List.cons_append]

/-- **The delimiters of a written text are properly nested.** -/
theorem nested (h : IsWritten t) : Nested (marks t) := by
  induction h with
  | nil => exact .nil
  | char hc _ ih => rwa [marks_char hc]
  | word hword hend _ ih => rwa [marks_word hword hend]
  | enclosed d hs _ ihs ih =>
    rw [marks_pair d fun u => hs.marks_append fun _ => d.not_startsWithLetter_closing u]
    exact .pair d ihs ih

end IsWritten

/-! ### Parentheses -/

/-- Wherever the character stands in a text, the word stands directly in front of it. -/
def StandsBehind (word : Text) (c : Char) (t : Text) : Prop :=
  ∀ before after, t = before ++ c :: after → word <:+ before

namespace StandsBehind

variable {word s t : Text} {c : Char}

theorem of_not_mem (h : c ∉ t) : StandsBehind word c t := by
  intro before after hcut
  exact absurd (by simp [hcut]) h

/-- The word with the character behind it. -/
theorem of_word (h : c ∉ word) : StandsBehind word c (word ++ [c]) := by
  intro before after hcut
  rcases cut_append hcut with ⟨k, hword, -⟩ | ⟨k, hbefore, hlast⟩
  · exact absurd (by simp [hword]) h
  · cases k with
    | nil => exact ⟨[], by simp [hbefore]⟩
    | cons d k => simp at hlast

theorem append (hs : StandsBehind word c s) (ht : StandsBehind word c t) :
    StandsBehind word c (s ++ t) := by
  intro before after hcut
  rcases cut_append hcut with ⟨k, hfirst, -⟩ | ⟨k, rfl, hlater⟩
  · exact hs before k hfirst
  · exact (ht k after hlater).trans (List.suffix_append s k)

end StandsBehind

/-- A left parenthesis stands only directly behind `\left`, a right one only behind `\right`. -/
def TallParens (t : Text) : Prop :=
  StandsBehind "\\left".toList '(' t ∧ StandsBehind "\\right".toList ')' t

theorem TallParens.append {s t : Text} (hs : TallParens s) (ht : TallParens t) :
    TallParens (s ++ t) := ⟨hs.1.append ht.1, hs.2.append ht.2⟩

theorem TallParens.of_chars {t : Text} (h : ∀ c ∈ t, isPlainChar c = true ∨ c = '\\') :
    TallParens t :=
  ⟨.of_not_mem fun hc => absurd (h _ hc) (by decide), .of_not_mem fun hc =>
    absurd (h _ hc) (by decide)⟩

theorem Mark.tallParens (m : Mark) : TallParens m.text := by
  cases m with
  | opening d =>
    cases d with
    | tallParens => exact ⟨.of_word (by decide), .of_not_mem (by decide)⟩
    | _ => exact ⟨.of_not_mem (by decide), .of_not_mem (by decide)⟩
  | closing d =>
    cases d with
    | tallParens => exact ⟨.of_not_mem (by decide), .of_word (by decide)⟩
    | _ => exact ⟨.of_not_mem (by decide), .of_not_mem (by decide)⟩

theorem IsWritten.tallParens {t : Text} (h : IsWritten t) : TallParens t := by
  induction h with
  | nil => exact .of_chars (by simp)
  | @char c t hc _ ih =>
    refine TallParens.append (s := [c]) (.of_chars fun d hd => ?_) ih
    exact .inl (by rwa [List.mem_singleton.1 hd])
  | @word letters t hword _ _ ih =>
    refine TallParens.append (s := '\\' :: letters) (.of_chars fun d hd => ?_) ih
    rcases List.mem_cons.1 hd with hslash | hletter
    · exact .inr hslash
    · exact .inl (isPlainChar_of_literal (.inl (isAlpha_of_isPlainWord hword d hletter)))
  | enclosed d _ _ ihs ih =>
    exact (Mark.opening d).tallParens.append (ihs.append ((Mark.closing d).tallParens.append ih))

/-- **Delimiters are nested.** If a source has an output and no `latex` in its trees, then in each
of its fragments the delimiters are properly nested, and parentheses stand only where `\left` and
`\right` make them delimiters. -/
theorem fragments_nested (limit : Nat) (source : Source)
    (houtput : (Compiler.compile { maxDepth := limit } source).output.isSome = true)
    (hlatex : ∀ n ∈ (Compiler.parse { maxDepth := limit } source.content).value, ∀ m ∈ n.nodes,
      m.command ≠ "latex".toList)
    {f : Fragment}
    (hf : some f ∈ (Compiler.fragments { maxDepth := limit } source.content).value) :
    Nested (marks f.latex) ∧ TallParens f.latex := by
  obtain ⟨-, hrender⟩ := (Compiler.isSome_output_iff _ source).1 houtput
  obtain ⟨hnode, hvalue⟩ := Compiler.mem_fragments _ _ hf
  have hwritten : IsWritten f.latex := by
    rw [hvalue]
    exact isWritten_render (hrender f.node hnode) (hlatex f.node hnode)
  exact ⟨hwritten.nested, hwritten.tallParens⟩

/-- A root with an index around a condition and an item of a list: all kinds of delimiters. -/
theorem fragments_nested_root :
    ∃ f, some f ∈ (Compiler.fragments { maxDepth := 4 }
        "(root (if (lt x y1) (index l (add 1 2))) 3)".toList).value ∧
      f.latex = ("\\sqrt[3]\x7bl\\left[\\left(1+2\\right)\\right]" ++
        "\\left\\\x7bx<y_\x7b1\x7d\\right\\\x7d\x7d").toList ∧
      Nested (marks f.latex) ∧ TallParens f.latex := by
  have hlatex : ((Compiler.fragments { maxDepth := 4 }
      "(root (if (lt x y1) (index l (add 1 2))) 3)".toList).value.map (Option.map Fragment.latex)) =
        [some ("\\sqrt[3]\x7bl\\left[\\left(1+2\\right)\\right]" ++
          "\\left\\\x7bx<y_\x7b1\x7d\\right\\\x7d\x7d").toList] := by decide +kernel
  obtain ⟨entry, hentry, hvalue⟩ := List.mem_map.1 (hlatex.symm ▸ List.mem_singleton_self _)
  obtain ⟨f, rfl, hf⟩ := Option.map_eq_some_iff.1 hvalue
  exact ⟨f, hentry, hf, fragments_nested 4
    ⟨"input", "(root (if (lt x y1) (index l (add 1 2))) 3)".toList⟩ (by decide +kernel)
    (by decide +kernel) hentry⟩

end GraphTex
