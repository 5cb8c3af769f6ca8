import GraphTex.Proofs.Formulas

/-!
# The lexemes of joined fragments

A LaTeX text is read from left to right as control words, which are a backslash with as many letters
as follow it, control symbols, which are a backslash with one other character, and single
characters. Blanks are dropped, but for the one of a control symbol (`lexemes`).

Reading looks forward from a backslash, joining looks back from the end of what is written. The two
agree as far as it matters: where joining sees no control word at the end of a text, reading is not
inside one, so the lexemes of two texts in a row are those of the first and those of the second
(`lexemes_append`). Where joining does see one, it may be letters behind two backslashes, but then
the blank that it puts there is dropped. So joining changes no lexeme (`lexemes_join`).
-/

namespace GraphTex.Latex

/-- A smallest part of a LaTeX text that has a meaning. -/
inductive Lexeme where
  /-- A backslash with the given letters behind it. -/
  | word (letters : Text)
  /-- A backslash with the given character behind it, which is no letter. -/
  | symbol (c : Char)
  /-- A character on its own. -/
  | char (c : Char)
  deriving DecidableEq, Repr

/-- The lexemes of a text. A backslash at its end, which no character follows, is one of its own. -/
def lexemes : Text → List Lexeme
  | [] => []
  | ['\\'] => [.char '\\']
  | '\\' :: c :: rest =>
    if c.isAlpha then
      .word (c :: rest.takeWhile Char.isAlpha) :: lexemes (rest.dropWhile Char.isAlpha)
    else .symbol c :: lexemes rest
  | c :: rest => if c = ' ' then lexemes rest else .char c :: lexemes rest
termination_by t => t.length
decreasing_by
  · have := List.length_dropWhile_le Char.isAlpha rest
    simp only [List.length_cons]
    omega
  all_goals simp only [List.length_cons]; omega

/-- Reading leaves a backslash at the end of the text that no character follows. -/
def EndsOpen (t : Text) : Prop := (lexemes t).getLast? = some (.char '\\')

instance (t : Text) : Decidable (EndsOpen t) := inferInstanceAs (Decidable (_ = _))

example : lexemes "2\\cdot x\\\\\\ y\\".toList =
    [.char '2', .word "cdot".toList, .char 'x', .symbol '\\', .symbol ' ', .char 'y',
      .char '\\'] := by
  decide +kernel

/-! ### Lexeme by lexeme -/

@[simp] theorem lexemes_nil : lexemes [] = [] := by rw [lexemes]

theorem lexemes_word {letters t : Text} (hne : letters ≠ [])
    (hletters : ∀ c ∈ letters, c.isAlpha = true) (hend : startsWithLetter t = false) :
    lexemes ('\\' :: (letters ++ t)) = .word letters :: lexemes t := by
  obtain ⟨c, letters, rfl⟩ := List.exists_cons_of_ne_nil hne
  obtain ⟨hc, hletters⟩ := List.forall_mem_cons.1 hletters
  have htake := takeWhile_isAlpha_word hletters hend
  have hdrop : (letters ++ t).dropWhile Char.isAlpha = t := by
    have hwhole := List.takeWhile_append_dropWhile (p := Char.isAlpha) (l := letters ++ t)
    rw [htake] at hwhole
    exact List.append_cancel_left hwhole
  rw [List.cons_append, lexemes, if_pos hc, htake, hdrop]

theorem lexemes_symbol {c : Char} (hc : c.isAlpha = false) (t : Text) :
    lexemes ('\\' :: c :: t) = .symbol c :: lexemes t := by
  rw [lexemes, if_neg (by simp [hc])]

theorem lexemes_cons {c : Char} (hc : c ≠ '\\') (t : Text) :
    lexemes (c :: t) = (if c = ' ' then [] else [.char c]) ++ lexemes t := by
  rw [lexemes]
  · split_ifs <;> rfl
  · exact fun h => absurd h hc
  · exact fun _ _ h => absurd h hc

/-- Induction on a text, lexeme by lexeme from its end. -/
theorem lexeme_induction {motive : Text → Prop} (nil : motive []) (backslash : motive ['\\'])
    (word : ∀ letters t, letters ≠ [] → (∀ c ∈ letters, c.isAlpha = true) →
      startsWithLetter t = false → motive t → motive ('\\' :: (letters ++ t)))
    (symbol : ∀ c t, c.isAlpha = false → motive t → motive ('\\' :: c :: t))
    (char : ∀ c t, c ≠ '\\' → motive t → motive (c :: t)) (t : Text) : motive t := by
  induction t using lexemes.induct with
  | case1 => exact nil
  | case2 => exact backslash
  | case3 c rest hc ih =>
    have hletters : ∀ d ∈ c :: rest.takeWhile Char.isAlpha, d.isAlpha = true :=
      List.forall_mem_cons.2 ⟨hc, fun d hd => List.mem_takeWhile_imp hd⟩
    have hmotive := word _ _ (by simp) hletters (startsWithLetter_dropWhile rest) ih
    rwa [List.cons_append, List.takeWhile_append_dropWhile] at hmotive
  | case4 c rest hc ih => exact symbol c rest (by simpa using hc) ih
  | case5 rest _ _ ih => exact char ' ' rest (by decide) ih
  | case6 c rest hend hbackslash _ ih =>
    refine char c rest (fun hc => ?_) ih
    cases rest with
    | nil => exact hend hc rfl
    | cons d rest => exact hbackslash d rest hc rfl

theorem EndsOpen.of_suffix {s t : Text} (h : EndsOpen t) (hs : lexemes t <:+ lexemes s) :
    EndsOpen s := by
  obtain ⟨before, hs⟩ := hs
  unfold EndsOpen at h ⊢
  rw [← hs, List.getLast?_append, h, Option.some_or]

/-- **The lexemes of two texts in a row** are those of the first and those of the second, if the
first one leaves no backslash and no letter goes on with a control word. -/
theorem lexemes_append {s t : Text} (hopen : ¬ EndsOpen s)
    (hseam : endsInControlWord s = true → startsWithLetter t = false) :
    lexemes (s ++ t) = lexemes s ++ lexemes t := by
  induction s using lexeme_induction with
  | nil => rw [List.nil_append, lexemes_nil, List.nil_append]
  | backslash => exact absurd (by unfold EndsOpen; decide +kernel) hopen
  | word letters s hne hletters hend ih =>
    have hword := lexemes_word hne hletters hend
    have hend' : startsWithLetter (s ++ t) = false := by
      cases s with
      | nil => exact hseam (endsInControlWord_iff.2 ⟨[], letters, by simp, hne, hletters⟩)
      | cons c s => exact hend
    have hrest := ih (fun h => hopen (h.of_suffix (hword ▸ List.suffix_cons _ _))) fun h =>
      hseam (endsInControlWord_append_left ('\\' :: letters) h)
    rw [List.cons_append, List.append_assoc, lexemes_word hne hletters hend', hrest, hword,
      List.cons_append]
  | symbol c s hc ih =>
    have hsymbol := lexemes_symbol hc s
    have hrest := ih (fun h => hopen (h.of_suffix (hsymbol ▸ List.suffix_cons _ _))) fun h =>
      hseam (endsInControlWord_append_left ['\\', c] h)
    rw [List.cons_append, List.cons_append, lexemes_symbol hc, hrest, hsymbol, List.cons_append]
  | char c s hc ih =>
    have hchar := lexemes_cons hc s
    have hrest := ih (fun h => hopen (h.of_suffix (hchar ▸ List.suffix_append _ _))) fun h =>
      hseam (endsInControlWord_append_left [c] h)
    rw [List.cons_append, lexemes_cons hc, hrest, hchar, List.append_assoc]

/-! ### Piece by piece -/

theorem push_eq (written piece : Text) :
    push written piece = written ++ (seam written piece ++ piece) := by
  unfold push seam
  split_ifs <;> rfl

theorem push_nil (piece : Text) : push [] piece = piece := by
  simp [push, endsInControlWord]

theorem startsWithLetter_iff {t : Text} :
    startsWithLetter t = true ↔ ∃ c rest, t = c :: rest ∧ c.isAlpha = true := by
  cases t with
  | nil => simp [startsWithLetter]
  | cons c t => simp [startsWithLetter]

theorem seam_cases (written piece : Text) :
    seam written piece = [] ∨ seam written piece = [' '] := by
  unfold seam
  split_ifs <;> simp

theorem seam_eq_blank_iff {written piece : Text} :
    seam written piece = [' '] ↔
      endsInControlWord written = true ∧ startsWithLetter piece = true := by
  rw [and_comm, ← Bool.and_eq_true, seam]
  split_ifs with h <;> simp [h]

/-- **A piece that is put behind a text changes none of its lexemes.** -/
theorem lexemes_push {written : Text} (hopen : ¬ EndsOpen written) (piece : Text) :
    lexemes (push written piece) = lexemes written ++ lexemes piece := by
  unfold push
  split_ifs with hseam
  · rw [lexemes_append hopen fun _ => rfl, lexemes_cons (by decide), if_pos rfl, List.nil_append]
  · rw [Bool.and_eq_true, not_and] at hseam
    refine lexemes_append hopen fun hword => ?_
    rw [← Bool.not_eq_true]
    exact fun hletter => hseam hletter hword

theorem not_endsOpen_push {written piece : Text} (hwritten : ¬ EndsOpen written)
    (hpiece : ¬ EndsOpen piece) : ¬ EndsOpen (push written piece) := by
  unfold EndsOpen
  rw [lexemes_push hwritten, List.getLast?_append, Option.or_eq_some_iff]
  rintro (h | ⟨-, h⟩)
  · exact hpiece h
  · exact hwritten h

theorem lexemes_foldl_push {written : Text} (hwritten : ¬ EndsOpen written) {pieces : List Text}
    (hpieces : ∀ piece ∈ pieces, ¬ EndsOpen piece) :
    lexemes (pieces.foldl push written) = lexemes written ++ pieces.flatMap lexemes := by
  induction pieces generalizing written with
  | nil => simp
  | cons piece pieces ih =>
    obtain ⟨hpiece, hpieces⟩ := List.forall_mem_cons.1 hpieces
    rw [List.foldl_cons, ih (not_endsOpen_push hwritten hpiece) hpieces, lexemes_push hwritten,
      List.flatMap_cons, List.append_assoc]

/-- The pieces, each with the blank that is put in front of it. -/
def seams (written : Text) : List Text → List (Text × Text)
  | [] => []
  | piece :: pieces => (seam written piece, piece) :: seams (push written piece) pieces

/-- Pieces one behind the other, each with its blank in front. -/
def spaced (pieces : List (Text × Text)) : Text := pieces.flatMap fun s => s.1 ++ s.2

theorem spaced_cons (blank piece : Text) (pieces : List (Text × Text)) :
    spaced ((blank, piece) :: pieces) = blank ++ piece ++ spaced pieces := List.flatMap_cons

theorem map_snd_seams (written : Text) (pieces : List Text) :
    (seams written pieces).map Prod.snd = pieces := by
  induction pieces generalizing written with
  | nil => rfl
  | cons piece pieces ih => rw [seams, List.map_cons, ih]

theorem foldl_push_eq (written : Text) (pieces : List Text) :
    pieces.foldl push written = written ++ spaced (seams written pieces) := by
  induction pieces generalizing written with
  | nil => exact (List.append_nil written).symm
  | cons piece pieces ih =>
    rw [List.foldl_cons, ih, seams, spaced_cons, ← List.append_assoc, ← push_eq]

/-- The blank in front of a piece is chosen by all that is written in front of it. -/
theorem seam_of_seams {written : Text} {pieces : List Text} {before after : List (Text × Text)}
    {blank piece : Text} (h : seams written pieces = before ++ (blank, piece) :: after) :
    blank = seam (written ++ spaced before) piece := by
  induction pieces generalizing written before with
  | nil => simp [seams] at h
  | cons next pieces ih =>
    rw [seams] at h
    rcases List.cons_eq_append_iff.1 h with ⟨rfl, hfirst⟩ | ⟨rest, rfl, hrest⟩
    · obtain ⟨rfl, rfl⟩ := Prod.mk.inj (List.cons.inj hfirst).1
      rw [spaced, List.flatMap_nil, List.append_nil]
    · rw [ih hrest, push_eq, spaced_cons, List.append_assoc]

/-! ### Joining -/

/-- Joining puts the parts, with separators between them, behind each other. -/
theorem join_eq_foldl (separator : Text) (parts : List Text) :
    join separator parts = (parts.intersperse separator).foldl push [] := by
  cases parts with
  | nil => rfl
  | cons first parts =>
    have hfirst : ∀ written, ((first :: parts).intersperse separator).foldl push written =
        parts.foldl (fun written part => push (push written separator) part)
          (push written first) := by
      induction parts generalizing first with
      | nil => exact fun written => rfl
      | cons part parts ih =>
        intro written
        rw [List.intersperse_cons_cons, List.foldl_cons, List.foldl_cons, ih, List.foldl_cons]
    rw [hfirst, push_nil, join]

theorem flatMap_intersperse (separator : Text) (parts : List Text) :
    (parts.intersperse separator).flatMap lexemes =
      (lexemes separator).intercalate (parts.map lexemes) := by
  cases parts with
  | nil => rfl
  | cons first parts =>
    induction parts generalizing first with
    | nil => simp
    | cons part parts ih =>
      rw [List.intersperse_cons_cons, List.flatMap_cons, List.flatMap_cons, ih, List.map_cons,
        List.map_cons, List.map_cons, List.intercalate_cons_cons, List.append_assoc]

theorem mem_of_mem_intersperse {separator piece : Text} {parts : List Text}
    (h : piece ∈ parts.intersperse separator) : piece ∈ separator :: parts := by
  cases parts with
  | nil => exact absurd h (by simp)
  | cons first parts =>
    induction parts generalizing first with
    | nil => exact List.mem_cons_of_mem _ h
    | cons part parts ih =>
      rw [List.intersperse_cons_cons, List.mem_cons, List.mem_cons] at h
      rcases h with rfl | rfl | h
      · exact List.mem_cons_of_mem _ List.mem_cons_self
      · exact List.mem_cons_self
      · exact List.cons_subset_cons separator (List.subset_cons_self first _) (ih part h)

/-- **Joining changes no lexeme.** If reading leaves no backslash at the end of a part or of the
separator, the lexemes of the whole are those of the parts with those of the separator in between.
In any case the whole is the parts with the separator in between and at most one blank in front of
each piece. The blank is there exactly if what is written up to it ends in a backslash and letters
and the piece starts with a letter. -/
theorem lexemes_join (separator : Text) (parts : List Text) :
    ((∀ t ∈ separator :: parts, ¬ EndsOpen t) →
      lexemes (join separator parts) = (lexemes separator).intercalate (parts.map lexemes)) ∧
    ∃ pieces : List (Text × Text),
      pieces.map Prod.snd = parts.intersperse separator ∧
      join separator parts = spaced pieces ∧
      ∀ (before : List (Text × Text)) (blank piece : Text) (after : List (Text × Text)),
        pieces = before ++ (blank, piece) :: after →
          (blank = [] ∨ blank = [' ']) ∧
          (blank = [' '] ↔
            (∃ front letters, spaced before = front ++ '\\' :: letters ∧ letters ≠ [] ∧
              ∀ c ∈ letters, c.isAlpha = true) ∧
            ∃ c rest, piece = c :: rest ∧ c.isAlpha = true) := by
  refine ⟨fun hopen => ?_, seams [] (parts.intersperse separator), map_snd_seams _ _, ?_, ?_⟩
  · rw [join_eq_foldl, lexemes_foldl_push (by simp [EndsOpen]) fun piece hpiece =>
      hopen piece (mem_of_mem_intersperse hpiece), lexemes_nil, List.nil_append,
      flatMap_intersperse]
  · rw [join_eq_foldl, foldl_push_eq, List.nil_append]
  · intro before blank piece after hpieces
    obtain rfl := seam_of_seams hpieces
    rw [List.nil_append, ← endsInControlWord_iff, ← startsWithLetter_iff]
    exact ⟨seam_cases _ _, seam_eq_blank_iff⟩

/-- Letters behind two backslashes, which joining takes for a control word and reading does not, a
separator that is a letter, an empty part, and a character outside ASCII. -/
theorem lexemes_join_letters :
    let separator := "x".toList
    let parts := ["\\\\a".toList, "\\pi".toList, [], "é".toList]
    (∀ t ∈ separator :: parts, ¬ EndsOpen t) ∧
      join separator parts = "\\\\a x\\pi xxé".toList ∧
      lexemes (join separator parts) = (lexemes separator).intercalate (parts.map lexemes) := by
  intro separator parts
  have hopen : ∀ t ∈ separator :: parts, ¬ EndsOpen t := by decide +kernel
  exact ⟨hopen, by decide, (lexemes_join separator parts).1 hopen⟩

end GraphTex.Latex
