import GraphTex.Proofs.Concatenation
import GraphTex.Proofs.Partners
import Mathlib.Data.List.Forall2

/-!
# Groups are the outermost pairs

The scans that find groups and report on parentheses count depths and look for no partners. Each of
them is described here by the places at depth zero where it finds something: a group at each
parenthesis that opens there and is closed (`Group.mem_outside_iff`), a stray parenthesis at each
that closes there (`Paren.mem_strayOffsets_iff`), and the unclosed one where a parenthesis opens
there and is not closed (`Paren.unclosed?_of_depth`). By what depths say about partners, the groups
of a text are its outermost pairs, and the reports are on the parentheses without partner
(`Group.find_outermost`).
-/

namespace GraphTex

open Paren

namespace Paren

/-! ### Stray parentheses -/

/-- The offsets of the stray parentheses of a text that stands at `offset`, at the given depth. -/
def strayOffsets (d offset : Nat) : Text → List Nat
  | [] => []
  | c :: rest =>
    let later := strayOffsets (depthAfter d c) (offset + c.utf8Size) rest
    if d = 0 ∧ c = ')' then offset :: later else later

theorem strays_eq_map (d offset : Nat) (t : Text) :
    strays d offset t = (strayOffsets d offset t).map mismatch := by
  induction t generalizing d offset with
  | nil => rfl
  | cons c t ih =>
    rw [strays, strayOffsets, ih]
    split_ifs <;> rfl

/-- Stray parentheses are found where a closing one stands at depth zero. -/
theorem mem_strayOffsets_iff {t : Text} {d offset p : Nat} :
    p ∈ strayOffsets d offset t ↔
      ∃ before after : Text, t = before ++ ')' :: after ∧ p = offset + before.bytes ∧
        before.foldl depthAfter d = 0 := by
  induction t generalizing d offset with
  | nil => simp [strayOffsets]
  | cons c t ih =>
    have hsplit : p ∈ strayOffsets d offset (c :: t) ↔
        (d = 0 ∧ c = ')') ∧ p = offset ∨
          p ∈ strayOffsets (depthAfter d c) (offset + c.utf8Size) t := by
      rw [strayOffsets]
      split_ifs with hstray <;> simp [hstray]
    rw [hsplit, ih]
    constructor
    · rintro (⟨⟨rfl, rfl⟩, rfl⟩ | ⟨before, after, rfl, rfl, hdepth⟩)
      · exact ⟨[], t, rfl, rfl, rfl⟩
      · exact ⟨c :: before, after, rfl, by rw [Text.bytes_cons, Nat.add_assoc], hdepth⟩
    · rintro ⟨before, after, heq, rfl, hdepth⟩
      rcases List.cons_eq_append_iff.1 heq with ⟨rfl, hclose⟩ | ⟨before, rfl, rfl⟩
      · exact .inl ⟨⟨hdepth, (List.cons.inj hclose).1.symm⟩, rfl⟩
      · exact .inr ⟨before, after, rfl, by rw [Text.bytes_cons, Nat.add_assoc], hdepth⟩

theorem le_of_mem_strayOffsets {t : Text} {d offset p : Nat} (h : p ∈ strayOffsets d offset t) :
    offset ≤ p := by
  obtain ⟨before, after, -, rfl, -⟩ := mem_strayOffsets_iff.1 h
  exact Nat.le_add_right _ _

/-- Stray parentheses are found from left to right. -/
theorem strayOffsets_increasing (d offset : Nat) (t : Text) :
    (strayOffsets d offset t).Pairwise (· < ·) := by
  induction t generalizing d offset with
  | nil => exact .nil
  | cons c t ih =>
    rw [strayOffsets]
    split_ifs
    · refine List.pairwise_cons.2 ⟨fun p hp => ?_, ih _ _⟩
      have hle := le_of_mem_strayOffsets hp
      have hpos := c.utf8Size_pos
      omega
    · exact ih _ _

/-- **The scan for stray parentheses finds all of them.** -/
theorem mem_strayOffsets {source : Text} {p : Nat} :
    p ∈ strayOffsets 0 0 source ↔ IsStray source p := by
  rw [mem_strayOffsets_iff, isStray_iff]
  simp only [Nat.zero_add, eq_comm (a := p), depth]

/-! ### The unclosed parenthesis -/

/-- Below a parenthesis that the text does not close, the scan keeps to that parenthesis. -/
theorem unclosed?_of_strays {t : Text} {d place : Nat} (h : strays d place t = [])
    (outermost offset : Nat) : unclosed? (d + 1) outermost offset t = some outermost := by
  induction t generalizing d place offset with
  | nil => rfl
  | cons c t ih =>
    rw [strays] at h
    split_ifs at h with hstray
    rw [unclosed?, depthAfter_add hstray, if_neg (Nat.succ_ne_zero d), ih h]

theorem strays_eq_nil_of_not_isClosedIn {t : Text} (h : ¬ IsClosedIn t) : strays 0 0 t = [] := by
  by_contra hstrays
  exact h ((isClosedIn_iff 0).2 hstrays)

theorem unclosed?_of_depth {before after : Text} (hdepth : depth before = 0)
    (hafter : ¬ IsClosedIn after) (outermost offset : Nat) :
    unclosed? 0 outermost offset (before ++ '(' :: after) = some (offset + before.bytes) := by
  rw [unclosed?_append hdepth, unclosed?, if_pos rfl, depthAfter_open,
    unclosed?_of_strays (strays_eq_nil_of_not_isClosedIn hafter)]

/-- **The scan for an unclosed parenthesis finds the leftmost one.** -/
theorem unclosed?_eq_some_iff {source : Text} {p : Nat} :
    unclosed? 0 0 0 source = some p ↔
      IsUnclosed source p ∧ ∀ q, IsUnclosed source q → p ≤ q := by
  -- what the scan finds is at depth zero, and in front of it everything that opens is closed
  have hleftmost : ∀ {before after : Text}, depth before = 0 → ¬ IsClosedIn after →
      ∀ q, IsUnclosed (before ++ '(' :: after) q → before.bytes ≤ q := by
    intro before after hdepth hafter q hq
    by_contra hlt
    obtain ⟨front, middle, rfl, rfl⟩ := hq.1.exists_front (Nat.lt_of_not_le hlt)
    obtain ⟨k, hk, -⟩ :=
      encloses_of_isClosedIn front (isClosedIn_of_depth hdepth) ('(' :: after)
    rw [List.append_assoc, List.cons_append] at hq
    exact hq.2 k (partners_iff.2 hk)
  by_cases hdepth : depth source = 0
  · rw [(Group.unclosed?_eq_none_iff source 0 0 0).2 hdepth]
    refine iff_of_false nofun ?_
    rintro ⟨hunclosed, -⟩
    obtain ⟨before, after, rfl, -, hafter⟩ := isUnclosed_iff.1 hunclosed
    exact hafter (isClosedIn_of_depth hdepth)
  · obtain ⟨before, after, rfl, hbefore, hafter⟩ := exists_unclosed hdepth
    have hunclosed : IsUnclosed (before ++ '(' :: after) before.bytes :=
      isUnclosed_iff.2 ⟨before, after, rfl, rfl, hafter⟩
    have hfirst := hleftmost hbefore hafter
    rw [unclosed?_of_depth hbefore hafter, Nat.zero_add, Option.some.injEq]
    constructor
    · rintro rfl
      exact ⟨hunclosed, hfirst⟩
    · rintro ⟨hp, hmin⟩
      exact Nat.le_antisymm (hfirst p hp) (hmin _ hunclosed)

end Paren

/-! ### Groups -/

namespace Group

/-- Inside a group that the text does not close, the scan finds no end. -/
theorem inside_of_strays {t : Text} {d place : Nat} (h : strays d place t = []) (offset : Nat) :
    inside d offset t = none := by
  induction t generalizing d place offset with
  | nil => rw [inside]
  | cons c t ih =>
    rw [strays] at h
    split_ifs at h with hstray
    rw [inside, if_neg hstray, ih h, Option.map_none]

/-- Groups are found where a parenthesis opens at depth zero and is closed. -/
theorem mem_outside_iff {t : Text} {offset : Nat} {g : Group} :
    g ∈ outside offset t ↔
      ∃ before after : Text, t = before ++ '(' :: (g.content ++ ')' :: after) ∧
        g.start = offset + before.bytes ∧ Balanced g.content ∧ depth before = 0 := by
  constructor
  · intro h
    induction t using pair_induction generalizing offset with
    | nil => simp [outside] at h
    | skip c t hopen ih =>
      rw [outside, if_neg hopen] at h
      obtain ⟨before, after, rfl, hstart, hcontent, hdepth⟩ := ih h
      refine ⟨c :: before, after, rfl, ?_, hcontent, by rw [depth_skip hopen, hdepth]⟩
      rw [hstart, Text.bytes_cons, Nat.add_assoc]
    | pair s t hs ih =>
      rw [outside_group hs] at h
      rcases List.mem_cons.1 h with rfl | h
      · exact ⟨[], t, rfl, rfl, hs, rfl⟩
      · obtain ⟨before, after, rfl, hstart, hcontent, hdepth⟩ := ih h
        refine ⟨'(' :: (s ++ ')' :: before), after, by simp, ?_, hcontent,
          by rw [depth_pair hs, hdepth]⟩
        simp only [hstart, Text.bytes_cons, Text.bytes_append, utf8Size_open, utf8Size_close]
        omega
    | unclosed t ht =>
      rw [outside, if_pos rfl, inside_of_strays (strays_eq_nil_of_not_isClosedIn ht)] at h
      exact absurd h List.not_mem_nil
  · rintro ⟨before, after, rfl, hstart, hcontent, hdepth⟩
    rw [(outside_inside_append before _).1 offset hdepth, outside_group hcontent, ← hstart]
    exact List.mem_append_right _ List.mem_cons_self

/-- The group has its parentheses at the two offsets and the text between them as its content. -/
structure IsPair (source : Text) (pair : Nat × Nat) (g : Group) : Prop where
  span : g.span = ⟨pair.1, pair.2 + 1⟩
  contentSpan : g.contentSpan = ⟨pair.1 + 1, pair.2⟩
  content : source.slice? ⟨pair.1 + 1, pair.2⟩ = some g.content
  balanced : Balanced g.content

/-- The offsets of the two parentheses of the group. -/
def pair (g : Group) : Nat × Nat := (g.start, g.contentSpan.stop)

theorem isPair_of_mem_find {source : Text} {g : Group} (h : g ∈ (find source).value) :
    IsPair source g.pair g := by
  obtain ⟨before, after, rfl, hstart, hcontent, -⟩ := mem_outside_iff.1 h
  rw [Nat.zero_add] at hstart
  refine ⟨rfl, rfl, ?_, hcontent⟩
  refine Text.slice?_eq_some_iff.2 ⟨before ++ ['('], ')' :: after, by simp, ?_⟩
  change Span.ofText (g.start + 1) g.content = _
  rw [hstart, bytes_append_open]
  rfl

/-- The pairs of the groups are the outermost ones. -/
theorem mem_map_pair_iff {source : Text} {i j : Nat} :
    (i, j) ∈ (find source).value.map pair ↔ IsOutermost source i j := by
  rw [isOutermost_iff, List.mem_map]
  constructor
  · rintro ⟨g, hg, heq⟩
    obtain ⟨rfl, rfl⟩ := Prod.mk.inj heq
    obtain ⟨before, after, hsource, hstart, hcontent, hdepth⟩ := mem_outside_iff.1 hg
    rw [Nat.zero_add] at hstart
    refine ⟨before, g.content, after, hsource, hcontent, hstart, ?_, hdepth⟩
    change g.start + 1 + g.content.bytes = _
    rw [hstart]
  · rintro ⟨before, content, after, hsource, hcontent, rfl, rfl, hdepth⟩
    refine ⟨⟨before.bytes, content⟩, mem_outside_iff.2 ?_, rfl⟩
    exact ⟨before, after, hsource, (Nat.zero_add _).symm, hcontent, hdepth⟩

/-- **The groups of a text are its outermost pairs, and the reports are on parentheses without
partner.** The groups are those pairs from left to right, one behind the other, each with the
balanced text between its parentheses. The reports are one for each stray parenthesis, from left to
right, and one for the leftmost unclosed parenthesis, if there is one. -/
theorem find_outermost (source : Text) :
    ∃ (pairs : List (Nat × Nat)) (strays : List Nat) (unclosed : Option Nat),
      List.Forall₂ (IsPair source) pairs (find source).value ∧
      pairs.Pairwise (fun p q => p.2 < q.1) ∧
      (∀ i j, (i, j) ∈ pairs ↔ IsOutermost source i j) ∧
      (find source).reports =
        (strays ++ unclosed.toList).map (fun p => ⟨.mismatchedParentheses, ⟨p, p + 1⟩⟩) ∧
      strays.Pairwise (· < ·) ∧
      (∀ p, p ∈ strays ↔ IsStray source p) ∧
      ∀ p, unclosed = some p ↔ IsUnclosed source p ∧ ∀ q, IsUnclosed source q → p ≤ q := by
  refine ⟨(find source).value.map pair, strayOffsets 0 0 source, unclosed? 0 0 0 source,
    ?_, ?_, fun i j => mem_map_pair_iff, ?_, strayOffsets_increasing 0 0 source,
    fun p => mem_strayOffsets, fun p => unclosed?_eq_some_iff⟩
  · rw [List.forall₂_map_left_iff, List.forall₂_same]
    exact fun g => isPair_of_mem_find
  · exact List.pairwise_map.2 (find_ordered source)
  · rw [List.map_append]
    change Paren.strays 0 0 source ++ _ = _
    rw [strays_eq_map]
    cases unclosed? 0 0 0 source <;> rfl

/-- A stray parenthesis, a group among wide characters, and a pair behind an unclosed one. -/
example :
    (find "é) (pi (x)) ((tau)".toList).value = [⟨4, "pi (x)".toList⟩] ∧
      (find "é) (pi (x)) ((tau)".toList).reports =
        [⟨.mismatchedParentheses, ⟨2, 3⟩⟩, ⟨.mismatchedParentheses, ⟨13, 14⟩⟩] := by
  decide

end Group

end GraphTex
