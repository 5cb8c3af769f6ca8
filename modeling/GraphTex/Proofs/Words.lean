import GraphTex.Token
import GraphTex.Proofs.Balance
import Mathlib.Data.List.TakeWhile

/-!
# Words and gaps

A text is laid out as words with gaps between them. A gap is a run of blanks outside all
parentheses. A word has no blank outside its parentheses, and it ends at a blank that is outside
them or at the end of the text. The layout of a text is unique (`cut_unique`), and its words are
the tokens of the text (`tokens_gap`, `tokens_word`).
-/

namespace GraphTex

open Paren

/-- The text has only blanks. -/
def IsGap (g : Text) : Prop := ∀ c ∈ g, isBlank c = true

/-- The text is not empty and has no blank outside its parentheses. -/
structure IsWord (w : Text) : Prop where
  ne_nil : w ≠ []
  uncut : ∀ s c r, w = s ++ c :: r → depth s = 0 → isBlank c = false

/-- A word ends in front of the given text: at the end, or at a blank outside its parentheses. -/
def EndsBefore (w t : Text) : Prop := t = [] ∨ depth w = 0 ∧ ∃ c r, t = c :: r ∧ isBlank c = true

theorem not_isBlank_open : isBlank '(' = false := by decide

theorem not_isBlank_close : isBlank ')' = false := by decide

theorem IsGap.balanced {g : Text} (h : IsGap g) : Balanced g := by
  refine .of_forall fun c hc => ⟨?_, ?_⟩
  · rintro rfl
    exact absurd (h _ hc) (by simp [not_isBlank_open])
  · rintro rfl
    exact absurd (h _ hc) (by simp [not_isBlank_close])

theorem IsWord.exists_cons {w : Text} (h : IsWord w) : ∃ c r, w = c :: r ∧ isBlank c = false := by
  obtain ⟨c, r, rfl⟩ := List.exists_cons_of_ne_nil h.ne_nil
  exact ⟨c, r, rfl, h.uncut [] c r rfl rfl⟩

/-! ### Existence -/

/-- Below `d` open parentheses, a text begins with a longest piece without blank at depth zero. -/
theorem exists_piece (t : Text) (d : Nat) :
    ∃ w r, t = w ++ r ∧
      (∀ s c b, w = s ++ c :: b → s.foldl depthAfter d = 0 → isBlank c = false) ∧
      (r = [] ∨ w.foldl depthAfter d = 0 ∧ ∃ c b, r = c :: b ∧ isBlank c = true) := by
  induction t generalizing d with
  | nil => exact ⟨[], [], rfl, fun s c b h => by simp at h, .inl rfl⟩
  | cons a t ih =>
    by_cases hcut : d = 0 ∧ isBlank a = true
    · exact ⟨[], a :: t, rfl, fun s c b h => by simp at h, .inr ⟨hcut.1, a, t, rfl, hcut.2⟩⟩
    · obtain ⟨w, r, rfl, huncut, hend⟩ := ih (depthAfter d a)
      refine ⟨a :: w, r, rfl, fun s c b h hs => ?_, hend⟩
      rcases List.cons_eq_append_iff.1 h with ⟨rfl, h⟩ | ⟨s, rfl, h⟩
      · obtain ⟨rfl, -⟩ := List.cons.inj h
        simpa [show d = 0 from hs] using hcut
      · exact huncut s c b (List.cons.inj h).2 hs

/-- A text is a gap, or a gap and a word in front of a rest. -/
theorem exists_cut (t : Text) :
    IsGap t ∨ ∃ g w r, t = g ++ (w ++ r) ∧ IsGap g ∧ IsWord w ∧ EndsBefore w r := by
  have hgap : IsGap (t.takeWhile isBlank) := fun c hc => List.mem_takeWhile_imp hc
  have hsplit := List.takeWhile_append_dropWhile (p := isBlank) (l := t)
  obtain ⟨w, r, hr, huncut, hend⟩ := exists_piece (t.dropWhile isBlank) 0
  by_cases hw : w = []
  · subst hw
    rcases hend with rfl | ⟨-, c, b, rfl, hc⟩
    · left
      rwa [← hsplit, hr, List.append_nil, List.append_nil]
    · have := List.head?_dropWhile_not isBlank t
      rw [hr] at this
      simp [hc] at this
  · right
    refine ⟨_, w, r, ?_, hgap, ⟨hw, huncut⟩, hend⟩
    rw [← hr, hsplit]

/-- Induction on the layout of a text: from the end, each time by a gap and a word. -/
theorem layout_induction {motive : Text → Prop} (gap : ∀ g, IsGap g → motive g)
    (word : ∀ g w r, IsGap g → IsWord w → EndsBefore w r → motive r → motive (g ++ (w ++ r)))
    (t : Text) : motive t := by
  induction hn : t.length using Nat.strong_induction_on generalizing t with
  | _ n ih =>
    rcases exists_cut t with hgap | ⟨g, w, r, rfl, hg, hw, hend⟩
    · exact gap t hgap
    · refine word g w r hg hw hend (ih r.length ?_ r rfl)
      have := List.length_pos_iff.2 hw.ne_nil
      simp only [← hn, List.length_append]
      omega

/-! ### Tokens -/

namespace Token

/-- Nothing is reported on the parentheses of a text exactly if they are balanced. -/
theorem reports_split (offset : Nat) (t : Text) :
    (split offset t).reports = [] ↔ Balanced t := by
  rw [balanced_iff offset t, split, List.append_eq_nil_iff]
  refine and_congr Iff.rfl ?_
  split_ifs with h <;> simp [h]

/-- Cutting a text into tokens reports on its parentheses only. -/
theorem fault_of_mem_split {offset : Nat} {t : Text} {r : Report}
    (h : r ∈ (split offset t).reports) : r.fault = .mismatchedParentheses := by
  rcases List.mem_append.1 h with hstray | hopen
  · obtain ⟨o, rfl⟩ := eq_mismatch_of_mem_strays hstray
    rfl
  · split_ifs at hopen
    · simp at hopen
    · rw [List.mem_singleton.1 hopen]

theorem tokens_nil (offset : Nat) : (split offset []).value = [] := rfl

/-- A gap holds no token. -/
theorem tokens_gap {g : Text} (hg : IsGap g) (offset : Nat) (t : Text) :
    (split offset (g ++ t)).value = (split (offset + g.bytes) t).value := by
  induction g generalizing offset with
  | nil => simp
  | cons c g ih =>
    have hc : isBlank c = true := hg c List.mem_cons_self
    have hrest := ih (fun d hd => hg d (List.mem_cons_of_mem c hd)) (offset + c.utf8Size)
    simp only [split] at hrest ⊢
    rw [List.cons_append, scan, if_pos ⟨rfl, hc⟩, ofPiece, hrest, Text.bytes_cons, Nat.add_assoc]

/-- A piece without blank at depth zero is read as a whole. -/
theorem scan_append {d : Nat} {w : Text}
    (h : ∀ s c r, w = s ++ c :: r → s.foldl depthAfter d = 0 → isBlank c = false)
    (offset : Nat) (t : Text) :
    scan d offset (w ++ t) =
      (w ++ (scan (w.foldl depthAfter d) (offset + w.bytes) t).1,
        (scan (w.foldl depthAfter d) (offset + w.bytes) t).2) := by
  induction w generalizing d offset with
  | nil => simp
  | cons c w ih =>
    have hc : ¬ (d = 0 ∧ isBlank c = true) := by
      rintro ⟨rfl, hc⟩
      exact absurd hc (by simp [h [] c w rfl rfl])
    have hw : ∀ s e r, w = s ++ e :: r → s.foldl depthAfter (depthAfter d c) = 0 →
        isBlank e = false := fun s e r hs => h (c :: s) e r (by rw [hs]; rfl)
    simp only [List.cons_append, scan, if_neg hc, ih hw, List.foldl_cons, Text.bytes_cons,
      Nat.add_assoc]

/-- A word is read as one piece, and reading goes on behind it. -/
theorem scan_word {w t : Text} (hw : IsWord w) (hend : EndsBefore w t) (offset : Nat) :
    scan 0 offset (w ++ t) = (w, (split (offset + w.bytes) t).value) := by
  rw [scan_append hw.uncut]
  rcases hend with rfl | ⟨hdepth, c, r, rfl, hc⟩
  · rw [scan, List.append_nil, tokens_nil]
  · rw [show w.foldl depthAfter 0 = 0 from hdepth, split, scan, if_pos ⟨rfl, hc⟩, List.append_nil,
      ofPiece]

/-- A word is a token of its own. -/
theorem tokens_word {w t : Text} (hw : IsWord w) (hend : EndsBefore w t) (offset : Nat) :
    (split offset (w ++ t)).value = ⟨offset, w⟩ :: (split (offset + w.bytes) t).value := by
  obtain ⟨c, r, hcons, -⟩ := hw.exists_cons
  have hpiece : ∀ later, ofPiece offset (w, later) = ⟨offset, w⟩ :: later := by
    intro later
    rw [hcons, ofPiece]
    simp
  rw [← hpiece, ← scan_word hw hend, split]

end Token

/-! ### Uniqueness -/

theorem takeWhile_isBlank {g w t : Text} (hg : IsGap g) (hw : IsWord w) :
    (g ++ (w ++ t)).takeWhile isBlank = g := by
  obtain ⟨c, r, rfl, hc⟩ := hw.exists_cons
  rw [List.takeWhile_append_of_pos hg, List.cons_append, List.takeWhile_cons_of_neg (by simp [hc]),
    List.append_nil]

/-- A gap holds no word. -/
theorem not_isGap_of_word {g w t : Text} (hw : IsWord w) : ¬ IsGap (g ++ (w ++ t)) := by
  intro h
  obtain ⟨c, r, rfl, hc⟩ := hw.exists_cons
  exact absurd (h c (by simp)) (by simp [hc])

/-- **The first gap, the first word and the rest of a text are unique.** -/
theorem cut_unique {g w t g' w' t' : Text} (h : g ++ (w ++ t) = g' ++ (w' ++ t'))
    (hg : IsGap g) (hw : IsWord w) (hend : EndsBefore w t) (hg' : IsGap g') (hw' : IsWord w')
    (hend' : EndsBefore w' t') : g = g' ∧ w = w' ∧ t = t' := by
  obtain rfl : g = g' := by rw [← takeWhile_isBlank hg hw, h, takeWhile_isBlank hg' hw']
  have hwords := List.append_cancel_left h
  obtain rfl : w = w' := by
    have hscan := Token.scan_word hw hend 0
    rw [hwords, Token.scan_word hw' hend'] at hscan
    exact (congrArg Prod.fst hscan).symm
  exact ⟨rfl, rfl, List.append_cancel_left hwords⟩

end GraphTex
