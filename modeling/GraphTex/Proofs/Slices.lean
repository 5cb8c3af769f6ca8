import GraphTex.Span
import Mathlib.Data.List.Basic

/-!
# Slices

A span that starts and stops between two characters of a text cuts a piece out of it. Spans count
bytes, so a span may also start or stop inside a character, and there it has no slice. A slice is
the same as a way to write the text as three pieces (`slice?_eq_some_iff`).
-/

namespace GraphTex

namespace Span

/-- The offset is inside the span. -/
def Covers (s : Span) (offset : Nat) : Prop := s.start ≤ offset ∧ offset < s.stop

/-- The span with one more byte at each end: around an expression, its parentheses. -/
def widen (s : Span) : Span := ⟨s.start - 1, s.stop + 1⟩

end Span

namespace Text

theorem bytes_eq_zero_iff {t : Text} : t.bytes = 0 ↔ t = [] := by
  cases t with
  | nil => simp
  | cons c t =>
    have := c.utf8Size_pos
    simp only [bytes_cons, reduceCtorEq, iff_false]
    omega

/-- Of two ways to cut a text, the one with fewer bytes in front cuts the front of the other. -/
theorem exists_append_of_bytes_le {s t s' t' : Text} (h : s ++ t = s' ++ t')
    (hle : s.bytes ≤ s'.bytes) : ∃ m, s' = s ++ m ∧ t = m ++ t' := by
  rcases List.append_eq_append_iff.1 h with hcut | ⟨m, rfl, rfl⟩
  · exact hcut
  · rw [bytes_append] at hle
    obtain rfl : m = [] := bytes_eq_zero_iff.1 (by omega)
    exact ⟨[], by simp, by simp⟩

/-- A character that stands in front of the cut. -/
theorem exists_append_of_bytes_lt {s t a b : Text} {c : Char} (h : s ++ t = a ++ c :: b)
    (hlt : a.bytes < s.bytes) : ∃ k, s = a ++ c :: k := by
  obtain ⟨m, rfl, hm⟩ := exists_append_of_bytes_le h.symm (Nat.le_of_lt hlt)
  cases m with
  | nil => simp at hlt
  | cons d k =>
    obtain ⟨rfl, -⟩ := List.cons.inj hm
    exact ⟨k, rfl⟩

/-- The text cut behind a number of bytes, if that is between two characters. -/
def splitAt? : Text → Nat → Option (Text × Text)
  | t, 0 => some ([], t)
  | [], _ + 1 => none
  | c :: t, n + 1 =>
    if c.utf8Size ≤ n + 1 then
      (splitAt? t (n + 1 - c.utf8Size)).map fun (front, back) => (c :: front, back)
    else none

@[simp] theorem splitAt?_zero (t : Text) : t.splitAt? 0 = some ([], t) := by
  cases t <;> rfl

theorem splitAt?_append (front back : Text) :
    (front ++ back).splitAt? front.bytes = some (front, back) := by
  induction front with
  | nil => exact splitAt?_zero back
  | cons c front ih =>
    have hpos := c.utf8Size_pos
    obtain ⟨n, hn⟩ : ∃ n, c.utf8Size + bytes front = n + 1 :=
      ⟨_, (Nat.sub_add_cancel (by omega)).symm⟩
    have hrest : n + 1 - c.utf8Size = bytes front := by omega
    rw [List.cons_append, bytes_cons, hn, splitAt?, if_pos (by omega), hrest, ih]
    rfl

theorem splitAt?_eq_some_iff {t front back : Text} {n : Nat} :
    t.splitAt? n = some (front, back) ↔ t = front ++ back ∧ front.bytes = n := by
  constructor
  · intro h
    fun_induction splitAt? t n generalizing front with
    | case1 t => simp_all
    | case2 n => simp at h
    | case3 c t n hsize ih =>
      obtain ⟨⟨front, rest⟩, hsplit, heq⟩ := Option.map_eq_some_iff.1 h
      obtain ⟨rfl, rfl⟩ := Prod.mk.inj heq
      obtain ⟨rfl, hbytes⟩ := ih hsplit
      refine ⟨rfl, ?_⟩
      rw [bytes_cons]
      omega
    | case4 c t n hsize => simp at h
  · rintro ⟨rfl, rfl⟩
    exact splitAt?_append front back

/-- The piece of a text that a span covers, if the span starts and stops between characters. -/
def slice? (t : Text) (s : Span) : Option Text :=
  (t.splitAt? s.stop).bind fun (front, _) => (front.splitAt? s.start).map Prod.snd

/-- A slice is the middle of three pieces. -/
theorem slice?_eq_some_iff {t piece : Text} {s : Span} :
    t.slice? s = some piece ↔
      ∃ before after, t = before ++ (piece ++ after) ∧ s = .ofText before.bytes piece := by
  unfold slice?
  constructor
  · intro h
    obtain ⟨⟨front, after⟩, hfront, hmap⟩ := Option.bind_eq_some_iff.1 h
    obtain ⟨⟨before, middle⟩, hbefore, rfl⟩ := Option.map_eq_some_iff.1 hmap
    obtain ⟨rfl, hstop⟩ := splitAt?_eq_some_iff.1 hfront
    obtain ⟨rfl, hstart⟩ := splitAt?_eq_some_iff.1 hbefore
    refine ⟨before, after, List.append_assoc .., ?_⟩
    rw [Span.ofText, ← bytes_append, hstart, hstop]
  · rintro ⟨before, after, rfl, rfl⟩
    have hstop := splitAt?_append (before ++ piece) after
    rw [List.append_assoc, bytes_append] at hstop
    simp only [Span.ofText, hstop, Option.bind_some, splitAt?_append, Option.map_some]

theorem start_le_stop_of_slice? {t piece : Text} {s : Span} (h : t.slice? s = some piece) :
    s.start ≤ s.stop := by
  obtain ⟨before, after, -, rfl⟩ := slice?_eq_some_iff.1 h
  exact Nat.le_add_right _ _

example : slice? "aéb".toList ⟨1, 3⟩ = some ['é'] ∧ slice? "aéb".toList ⟨1, 2⟩ = none := by decide

end Text

end GraphTex
