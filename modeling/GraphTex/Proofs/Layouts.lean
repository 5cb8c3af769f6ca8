import GraphTex.Proofs.Outermost
import GraphTex.Proofs.Words

/-!
# Layouts

A layout writes a text as words with gaps between them (`Layout`). Its gaps are the blanks outside
all parentheses, and its words have no such blank, where the depth of a place is always that of the
whole text in front of it (`Layout.IsOf`). A gap that is not empty is at depth zero, so behind it
depths are those of the rest by itself. This makes a layout a gap, a word and a layout of the rest
(`Layout.isOf_cons_iff`), and it carries over what is known of the first gap and the first word of a
text. So every text has one layout, whether its parentheses are balanced or not, and cutting the
text into tokens gives the words of that layout at their places (`Token.split_layout`).
-/

namespace GraphTex

open Paren

/-- The pieces of a text in order: a gap, then words, each with the gap behind it. -/
structure Layout where
  start : Text
  words : List (Text × Text)

/-- Behind the text `before`, every character of the piece is a blank outside all parentheses. -/
def IsGapBehind (before gap : Text) : Prop :=
  ∀ s c r, gap = s ++ c :: r → isBlank c = true ∧ depth (before ++ s) = 0

/-- Behind the text `before`, the piece starts with a character that is no blank and has no blank
outside all parentheses. -/
structure IsWordBehind (before word : Text) : Prop where
  head : ∃ c r, word = c :: r ∧ isBlank c = false
  uncut : ∀ s c r, word = s ++ c :: r → depth (before ++ s) = 0 → isBlank c = false

namespace Layout

/-- The text that is laid out. -/
def text (l : Layout) : Text := l.start ++ l.words.flatMap fun w => w.1 ++ w.2

/-- The text in front of a word. -/
def front (l : Layout) (i : Nat) : Text := text ⟨l.start, l.words.take i⟩

/-- The layout is one of the given text. Only the first and the last gap may be empty. -/
structure IsOf (l : Layout) (t : Text) : Prop where
  text_eq : t = l.text
  start : IsGapBehind [] l.start
  word : ∀ i w gap, l.words[i]? = some (w, gap) → IsWordBehind (l.front i) w
  gap : ∀ i w gap, l.words[i]? = some (w, gap) → IsGapBehind (l.front i ++ w) gap
  apart : ∀ i w gap, l.words[i]? = some (w, gap) → i + 1 < l.words.length → gap ≠ []

end Layout

/-! ### Depths behind a gap -/

theorem Paren.depth_append {s : Text} (h : depth s = 0) (t : Text) : depth (s ++ t) = depth t := by
  unfold depth at h ⊢
  rw [List.foldl_append, h]

theorem isGapBehind_append {s : Text} (hs : depth s = 0) (before gap : Text) :
    IsGapBehind (s ++ before) gap ↔ IsGapBehind before gap := by
  unfold IsGapBehind
  simp only [List.append_assoc, depth_append hs]

theorem isWordBehind_append {s : Text} (hs : depth s = 0) (before word : Text) :
    IsWordBehind (s ++ before) word ↔ IsWordBehind before word := by
  constructor
  · intro h
    refine ⟨h.head, fun t c r hword hdepth => h.uncut t c r hword ?_⟩
    rw [List.append_assoc, depth_append hs, hdepth]
  · intro h
    refine ⟨h.head, fun t c r hword hdepth => h.uncut t c r hword ?_⟩
    rwa [List.append_assoc, depth_append hs] at hdepth

/-- At depth zero, a gap is a run of blanks. -/
theorem isGapBehind_iff {s gap : Text} (hs : depth s = 0) : IsGapBehind s gap ↔ IsGap gap := by
  rw [← List.append_nil s, isGapBehind_append hs]
  constructor
  · intro h c hc
    obtain ⟨s, r, rfl⟩ := List.append_of_mem hc
    exact (h s c r rfl).1
  · rintro h s c r rfl
    have hs : IsGap s := fun d hd => h d (List.mem_append_left _ hd)
    exact ⟨h c (by simp), hs.balanced.depth_eq_zero⟩

/-- At depth zero, a word has no blank outside its own parentheses. -/
theorem isWordBehind_iff {s word : Text} (hs : depth s = 0) :
    IsWordBehind s word ↔ IsWord word := by
  rw [← List.append_nil s, isWordBehind_append hs]
  constructor
  · intro h
    obtain ⟨c, r, rfl, -⟩ := h.head
    exact ⟨List.cons_ne_nil c r, h.uncut⟩
  · exact fun h => ⟨h.exists_cons, h.uncut⟩

/-- A gap that is not empty is at depth zero. -/
theorem IsGapBehind.depth_eq_zero {before gap : Text} (h : IsGapBehind before gap)
    (hne : gap ≠ []) : depth before = 0 := by
  obtain ⟨c, r, rfl⟩ := List.exists_cons_of_ne_nil hne
  have hdepth := (h [] c r rfl).2
  rwa [List.append_nil] at hdepth

namespace Layout

variable {start word gap : Text} {words : List (Text × Text)}

theorem text_cons :
    text ⟨start, (word, gap) :: words⟩ = start ++ (word ++ text ⟨gap, words⟩) := by
  simp [text]

theorem front_zero (l : Layout) : l.front 0 = l.start := by
  simp [front, text]

theorem front_succ (i : Nat) :
    front ⟨start, (word, gap) :: words⟩ (i + 1) = start ++ word ++ front ⟨gap, words⟩ i := by
  simp [front, text]

/-- A word stands behind the text in front of it. -/
theorem exists_text_eq {l : Layout} {i : Nat} (h : l.words[i]? = some (word, gap)) :
    ∃ after, l.text = l.front i ++ (word ++ after) := by
  obtain ⟨hlt, hword⟩ := List.getElem?_eq_some_iff.1 h
  have hsplit := List.take_append_drop i l.words
  rw [List.drop_eq_getElem_cons hlt, hword] at hsplit
  refine ⟨gap ++ (l.words.drop (i + 1)).flatMap fun w => w.1 ++ w.2, ?_⟩
  nth_rewrite 1 [text, ← hsplit]
  simp [front, text]

theorem isOf_nil_iff {t : Text} : IsOf ⟨start, []⟩ t ↔ t = start ∧ IsGap start := by
  have htext : text ⟨start, []⟩ = start := by simp [text]
  constructor
  · intro h
    exact ⟨h.text_eq.trans htext, (isGapBehind_iff rfl).1 h.start⟩
  · rintro ⟨rfl, h⟩
    exact ⟨htext.symm, (isGapBehind_iff rfl).2 h, by simp, by simp, by simp⟩

/-- A layout without a gap in front does not start with a blank. -/
theorem IsOf.exists_cons {t : Text} (h : IsOf ⟨[], words⟩ t) (hne : words ≠ []) :
    ∃ c r, t = c :: r ∧ isBlank c = false := by
  obtain ⟨⟨w, g⟩, words, rfl⟩ := List.exists_cons_of_ne_nil hne
  obtain ⟨c, r, rfl, hc⟩ := (h.word 0 w g rfl).head
  exact ⟨c, r ++ text ⟨g, words⟩, by rw [h.text_eq, text_cons]; rfl, hc⟩

/-- What stands behind the first word of a layout is laid out by the other words. -/
theorem IsOf.tail {t : Text} (h : IsOf ⟨start, (word, gap) :: words⟩ t) :
    EndsBefore word (text ⟨gap, words⟩) ∧ IsOf ⟨gap, words⟩ (text ⟨gap, words⟩) := by
  have hzero := ((isGapBehind_iff rfl).1 h.start).balanced.depth_eq_zero
  have hbehind := h.gap 0 word gap rfl
  rw [front_zero] at hbehind
  by_cases hgap : gap = []
  · -- only the last gap may be empty
    have hwords : words = [] := by
      by_contra hwords
      have := List.length_pos_iff.2 hwords
      exact h.apart 0 word gap rfl (by simpa using this) hgap
    subst hgap hwords
    exact ⟨.inl rfl, isOf_nil_iff.2 ⟨rfl, by simp [IsGap]⟩⟩
  · have hdepth := hbehind.depth_eq_zero hgap
    have hstart := (isGapBehind_iff hdepth).1 hbehind
    refine ⟨.inr ⟨by rwa [depth_append hzero] at hdepth, ?_⟩, rfl, (isGapBehind_iff rfl).2 hstart,
      fun i w g hw => ?_, fun i w g hw => ?_, fun i w g hw hlt => ?_⟩
    · obtain ⟨c, r, rfl⟩ := List.exists_cons_of_ne_nil hgap
      exact ⟨c, _, rfl, hstart c List.mem_cons_self⟩
    · have hword := h.word (i + 1) w g hw
      rwa [front_succ, isWordBehind_append hdepth] at hword
    · have hbehind := h.gap (i + 1) w g hw
      rwa [front_succ, List.append_assoc, isGapBehind_append hdepth] at hbehind
    · exact h.apart (i + 1) w g hw (Nat.succ_lt_succ hlt)

/-- A gap and a word in front of a text that is laid out. -/
theorem IsOf.cons {rest : Text} (hstart : IsGap start) (hword : IsWord word)
    (hend : EndsBefore word rest) (h : IsOf ⟨gap, words⟩ rest) :
    IsOf ⟨start, (word, gap) :: words⟩ (start ++ (word ++ rest)) := by
  have hzero := hstart.balanced.depth_eq_zero
  have hapart : words ≠ [] → gap ≠ [] := by
    rintro hne rfl
    obtain ⟨c, r, rfl, hc⟩ := h.exists_cons hne
    rcases hend with hnil | ⟨-, d, b, hcons, hd⟩
    · simp at hnil
    · rw [← (List.cons.inj hcons).1, hc] at hd
      exact absurd hd (by simp)
  have hdepth : gap ≠ [] → depth (start ++ word) = 0 := by
    intro hne
    rcases hend with rfl | ⟨hdepth, -⟩
    · exact absurd (List.append_eq_nil_iff.1 h.text_eq.symm).1 hne
    · rw [depth_append hzero, hdepth]
  have hne : ∀ {i : Nat} {w g : Text}, words[i]? = some (w, g) → words ≠ [] := by
    rintro i w g hw rfl
    simp at hw
  refine ⟨by rw [text_cons, h.text_eq], (isGapBehind_iff rfl).2 hstart, ?_, ?_, ?_⟩
  · rintro (- | i) w g hw
    · cases hw
      rw [front_zero]
      exact (isWordBehind_iff hzero).2 hword
    · rw [front_succ, isWordBehind_append (hdepth (hapart (hne hw)))]
      exact h.word i w g hw
  · rintro (- | i) w g hw
    · cases hw
      rw [front_zero]
      by_cases hgap : gap = []
      · subst hgap
        simp [IsGapBehind]
      · exact (isGapBehind_iff (hdepth hgap)).2 ((isGapBehind_iff rfl).1 h.start)
    · rw [front_succ, List.append_assoc, isGapBehind_append (hdepth (hapart (hne hw)))]
      exact h.gap i w g hw
  · rintro (- | i) w g hw hlt
    · cases hw
      exact hapart (List.length_pos_iff.1 (Nat.lt_of_succ_lt_succ hlt))
    · exact h.apart i w g hw (Nat.lt_of_succ_lt_succ hlt)

/-- **A layout is a gap, a word and a layout of the rest.** -/
theorem isOf_cons_iff {t : Text} :
    IsOf ⟨start, (word, gap) :: words⟩ t ↔
      ∃ rest, t = start ++ (word ++ rest) ∧ IsGap start ∧ IsWord word ∧ EndsBefore word rest ∧
        IsOf ⟨gap, words⟩ rest := by
  constructor
  · intro h
    have hstart := (isGapBehind_iff rfl).1 h.start
    have hword := h.word 0 word gap rfl
    rw [front_zero] at hword
    exact ⟨_, h.text_eq.trans text_cons, hstart,
      (isWordBehind_iff hstart.balanced.depth_eq_zero).1 hword, h.tail⟩
  · rintro ⟨rest, rfl, hstart, hword, hend, hrest⟩
    exact .cons hstart hword hend hrest

/-! ### One layout -/

theorem exists_isOf (t : Text) : ∃ l : Layout, l.IsOf t := by
  induction t using layout_induction with
  | gap g hg => exact ⟨⟨g, []⟩, isOf_nil_iff.2 ⟨rfl, hg⟩⟩
  | word g w r hg hw hend ih =>
    obtain ⟨⟨gap, words⟩, hrest⟩ := ih
    exact ⟨⟨g, (w, gap) :: words⟩, .cons hg hw hend hrest⟩

/-- **A text has one layout only.** -/
theorem IsOf.unique {l l' : Layout} {t : Text} (h : l.IsOf t) (h' : l'.IsOf t) : l = l' := by
  obtain ⟨start, words⟩ := l
  obtain ⟨start', words'⟩ := l'
  induction words generalizing start start' words' t with
  | nil =>
    obtain ⟨rfl, hgap⟩ := isOf_nil_iff.1 h
    cases words' with
    | nil =>
      obtain ⟨rfl, -⟩ := isOf_nil_iff.1 h'
      rfl
    | cons w words' =>
      obtain ⟨rest, rfl, -, hword, -⟩ := isOf_cons_iff.1 h'
      exact absurd hgap (not_isGap_of_word hword)
  | cons w words ih =>
    obtain ⟨rest, rfl, hstart, hword, hend, hrest⟩ := isOf_cons_iff.1 h
    cases words' with
    | nil =>
      obtain ⟨rfl, hgap⟩ := isOf_nil_iff.1 h'
      exact absurd hgap (not_isGap_of_word hword)
    | cons w' words' =>
      obtain ⟨rest', heq, hstart', hword', hend', hrest'⟩ := isOf_cons_iff.1 h'
      obtain ⟨rfl, hw, rfl⟩ := cut_unique heq hstart hword hend hstart' hword' hend'
      obtain ⟨hgap, rfl⟩ := Layout.mk.inj (ih _ hrest _ _ hrest')
      obtain rfl : w = w' := Prod.ext hw hgap
      rfl

end Layout

/-! ### Tokens -/

namespace Token

/-- The tokens of a text are the words of its layout, each at the place where it stands. -/
theorem tokens_of_isOf {l : Layout} {t : Text} (h : l.IsOf t) (offset : Nat) :
    (split offset t).value =
      l.words.mapIdx fun i w => ⟨offset + (l.front i).bytes, w.1⟩ := by
  obtain ⟨start, words⟩ := l
  induction words generalizing start t offset with
  | nil =>
    obtain ⟨rfl, hgap⟩ := Layout.isOf_nil_iff.1 h
    have htokens := tokens_gap hgap offset []
    rwa [List.append_nil, tokens_nil] at htokens
  | cons w words ih =>
    obtain ⟨word, gap⟩ := w
    obtain ⟨rest, rfl, hstart, hword, hend, hrest⟩ := Layout.isOf_cons_iff.1 h
    rw [tokens_gap hstart, tokens_word hword hend, ih _ _ hrest, List.mapIdx_cons,
      Layout.front_zero]
    simp only [Layout.front_succ, Text.bytes_append, Nat.add_assoc]

/-- **Tokens partition their text.** A text has one layout. Its tokens are the words of that layout
in order, and the span of each cuts the word out of the text at the place where it stands. The
reports are one for each closing parenthesis at depth zero, at its own byte and from left to right,
and then one on the whole text if it ends below an open parenthesis. -/
theorem split_layout (offset : Nat) (text : Text) :
    ∃ layout : Layout, layout.IsOf text ∧ (∀ other : Layout, other.IsOf text → other = layout) ∧
      (split offset text).value.map Token.text = layout.words.map Prod.fst ∧
      (∀ (i : Nat) (t : Token), (split offset text).value[i]? = some t →
        t.span = ⟨offset + (layout.front i).bytes,
          offset + ((layout.front i).bytes + t.text.bytes)⟩ ∧
        text.slice? ⟨(layout.front i).bytes, (layout.front i).bytes + t.text.bytes⟩ =
          some t.text) ∧
      ∃ strays : List Nat, strays.Pairwise (· < ·) ∧
        (∀ p, p ∈ strays ↔ ∃ before after : Text, text = before ++ ')' :: after ∧
          p = offset + before.bytes ∧ depth before = 0) ∧
        (split offset text).reports =
          strays.map (fun p => ⟨.mismatchedParentheses, ⟨p, p + 1⟩⟩) ++
            if depth text = 0 then [] else
              [⟨.mismatchedParentheses, ⟨offset, offset + text.bytes⟩⟩] := by
  obtain ⟨layout, hlayout⟩ := Layout.exists_isOf text
  have htokens := tokens_of_isOf hlayout offset
  refine ⟨layout, hlayout, fun other hother => hother.unique hlayout, ?_, fun i t ht => ?_,
    strayOffsets 0 offset text, strayOffsets_increasing 0 offset text,
    fun p => mem_strayOffsets_iff, ?_⟩
  · rw [htokens]
    apply List.ext_getElem <;> simp
  · rw [htokens, List.getElem?_mapIdx] at ht
    obtain ⟨⟨word, gap⟩, hword, rfl⟩ := Option.map_eq_some_iff.1 ht
    refine ⟨by simp [span, Span.ofText, Nat.add_assoc], ?_⟩
    obtain ⟨after, hafter⟩ := Layout.exists_text_eq hword
    exact Text.slice?_eq_some_iff.2 ⟨layout.front i, after, hlayout.text_eq.trans hafter, rfl⟩
  · rw [split, strays_eq_map]
    rfl

/-- A wide blank, blanks inside parentheses, a stray parenthesis, and a parenthesis that is never
closed, behind which no blank cuts. -/
example :
    (split 10 "f\u2003(x y)é ) z (a b".toList).value =
        [⟨10, ['f']⟩, ⟨14, "(x y)é".toList⟩, ⟨22, [')']⟩, ⟨24, ['z']⟩, ⟨26, "(a b".toList⟩] ∧
      (split 10 "f\u2003(x y)é ) z (a b".toList).reports =
        [⟨.mismatchedParentheses, ⟨22, 23⟩⟩, ⟨.mismatchedParentheses, ⟨10, 30⟩⟩] := by
  decide

end Token

end GraphTex
