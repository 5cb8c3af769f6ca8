import GraphTex.Group
import GraphTex.Proofs.Balance

/-!
# Groups of balanced text

Nothing is reported on the parentheses of a source exactly if they are balanced (`reports_find`).
The content of a group is balanced, so reading the groups of a source steps over each content as a
whole (`outside_plain`, `outside_group`). Groups are found from left to right and do not overlap
(`find_ordered`).
-/

namespace GraphTex.Group

open Paren

theorem unclosed?_eq_none_iff (t : Text) (d outermost offset : Nat) :
    unclosed? d outermost offset t = none ↔ t.foldl depthAfter d = 0 := by
  induction t generalizing d outermost offset with
  | nil => simp [unclosed?]
  | cons c t ih => rw [unclosed?, ih, List.foldl_cons]

/-- A parenthesis that is not closed was open in front of the text or is one of the text. -/
theorem exists_of_unclosed? {t : Text} {d outermost offset o : Nat}
    (h : unclosed? d outermost offset t = some o) :
    d ≠ 0 ∧ o = outermost ∨
      ∃ before after : Text, t = before ++ '(' :: after ∧ o = offset + before.bytes := by
  induction t generalizing d outermost offset with
  | nil =>
    rw [unclosed?] at h
    split_ifs at h with hzero
    exact .inl ⟨hzero, (Option.some.inj h).symm⟩
  | cons c t ih =>
    rw [unclosed?] at h
    rcases ih h with ⟨hdepth, rfl⟩ | ⟨before, after, rfl, rfl⟩
    · split_ifs with hzero
      · -- only an opening parenthesis leads from depth zero to another depth
        subst hzero
        by_cases hopen : c = '('
        · exact .inr ⟨[], t, by rw [hopen, List.nil_append], rfl⟩
        · by_cases hclose : c = ')'
          · exact absurd (by rw [hclose]; rfl) hdepth
          · exact absurd (depthAfter_plain hopen hclose 0) hdepth
      · exact .inl ⟨hzero, rfl⟩
    · exact .inr ⟨c :: before, after, rfl, by rw [Text.bytes_cons, Nat.add_assoc]⟩

/-- **The parentheses of a source are in order exactly if they are balanced.** -/
theorem reports_find (source : Text) : (find source).reports = [] ↔ Balanced source := by
  rw [balanced_iff 0 source, depth, ← unclosed?_eq_none_iff source 0 0 0, find,
    List.append_eq_nil_iff]
  refine and_congr Iff.rfl ?_
  cases unclosed? 0 0 0 source <;> simp

/-- Every report on the parentheses of a source is on one of them. -/
theorem eq_mismatch_of_mem_find {source : Text} {r : Report} (h : r ∈ (find source).reports) :
    ∃ o, r = mismatch o := by
  rcases List.mem_append.1 h with h | h
  · exact eq_mismatch_of_mem_strays h
  · obtain ⟨o, -, rfl⟩ := Option.map_eq_some_iff.1 (Option.mem_toList.1 h)
    exact ⟨o, rfl⟩

theorem inside_append {s : Text} (h : Balanced s) (d offset : Nat) (t : Text) :
    inside d offset (s ++ t) =
      (inside d (offset + s.bytes) t).map fun (content, later) => (s ++ content, later) := by
  induction h generalizing d offset t with
  | nil => simp
  | @plain c s hopen hclose _ ih =>
    rw [List.cons_append, inside, if_neg (by simp [hclose]), depthAfter_plain hopen hclose, ih,
      Option.map_map, Text.bytes_cons, Nat.add_assoc]
    rfl
  | @nested s r _ _ ihs ihr =>
    simp only [List.cons_append, List.append_assoc]
    rw [inside, if_neg (by simp), depthAfter_open, ihs, inside, if_neg (by simp), depthAfter_close,
      Nat.add_sub_cancel, ihr]
    simp only [Option.map_map, Function.comp_def, Text.bytes_cons, Text.bytes_append, utf8Size_open,
      utf8Size_close]
    simp [Nat.add_assoc]

theorem outside_plain {s : Text} (h : ∀ c ∈ s, c ≠ '(') (offset : Nat) (t : Text) :
    outside offset (s ++ t) = outside (offset + s.bytes) t := by
  induction s generalizing offset with
  | nil => simp
  | cons c s ih =>
    rw [List.cons_append, outside, if_neg (h c List.mem_cons_self),
      ih fun d hd => h d (List.mem_cons_of_mem c hd), Text.bytes_cons, Nat.add_assoc]

/-- A closed group is found with its content, and reading goes on behind it. -/
theorem outside_group {s : Text} (h : Balanced s) (offset : Nat) (t : Text) :
    outside offset ('(' :: (s ++ ')' :: t)) =
      ⟨offset, s⟩ :: outside (offset + 1 + s.bytes + 1) t := by
  rw [outside, if_pos rfl, inside_append h, inside, if_pos ⟨rfl, rfl⟩]
  simp

/-- The group ends in front of another one. -/
def IsBefore (g g' : Group) : Prop := g.contentSpan.stop < g'.start

/-- Both scans find groups one behind the other, the scan inside a group behind the end of it. -/
theorem outside_inside_ordered (t : Text) :
    (∀ offset, (outside offset t).Pairwise IsBefore ∧ ∀ g ∈ outside offset t, offset ≤ g.start) ∧
    ∀ d offset content later, inside d offset t = some (content, later) →
      later.Pairwise IsBefore ∧ ∀ g ∈ later, offset + content.bytes < g.start := by
  induction t with
  | nil => exact ⟨by simp [outside], by simp [inside]⟩
  | cons c t ih =>
    obtain ⟨ihout, ihin⟩ := ih
    constructor
    · intro offset
      rw [outside]
      split_ifs with hopen
      · cases hin : inside 0 (offset + 1) t with
        | none => exact ⟨.nil, by simp⟩
        | some found =>
          obtain ⟨hlater, hbehind⟩ := ihin 0 (offset + 1) found.1 found.2 hin
          refine ⟨List.pairwise_cons.2 ⟨hbehind, hlater⟩, fun g hg => ?_⟩
          rcases List.mem_cons.1 hg with rfl | hg
          · exact Nat.le_refl offset
          · have := hbehind g hg
            omega
      · obtain ⟨hlater, hbehind⟩ := ihout (offset + c.utf8Size)
        refine ⟨hlater, fun g hg => ?_⟩
        have := hbehind g hg
        omega
    · intro d offset content later hin
      rw [inside] at hin
      split_ifs at hin with hclose
      · cases hin
        obtain ⟨hlater, hbehind⟩ := ihout (offset + 1)
        refine ⟨hlater, fun g hg => ?_⟩
        have := hbehind g hg
        rw [Text.bytes_nil]
        omega
      · obtain ⟨⟨rest, behind⟩, hrest, heq⟩ := Option.map_eq_some_iff.1 hin
        cases heq
        obtain ⟨hlater, hbehind⟩ := ihin _ _ _ _ hrest
        refine ⟨hlater, fun g hg => ?_⟩
        have := hbehind g hg
        rw [Text.bytes_cons]
        omega

/-- **The groups of a source follow each other.** -/
theorem find_ordered (source : Text) : (find source).value.Pairwise IsBefore :=
  ((outside_inside_ordered source).1 0).1

end GraphTex.Group
