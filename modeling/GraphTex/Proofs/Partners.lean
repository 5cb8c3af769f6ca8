import GraphTex.Proofs.Balance
import GraphTex.Proofs.Slices

/-!
# Partners

Every closing parenthesis of a text takes as its partner the nearest opening one in front of it that
has none yet. That is the rule by which people match parentheses, and `Partners` states it, for
offsets in any text. Parentheses without partner are *stray* if they close and *unclosed* if they
open.

Between partners the text is balanced, and parentheses with balanced text between them are partners
(`partners_iff`). From this follows what the depth of a place says about partners: a closing
parenthesis is stray exactly if it is at depth zero (`isStray_iff`), and a pair of partners is an
outermost one exactly if it starts at depth zero (`isOutermost_iff`).
-/

namespace GraphTex

/-- The character stands in the text, behind the given number of bytes. -/
def Text.HasAt (t : Text) (offset : Nat) (c : Char) : Prop :=
  ∃ before after : Text, t = before ++ c :: after ∧ before.bytes = offset

namespace Text

variable {t before after : Text} {c d : Char} {offset : Nat}

theorem hasAt_append (before : Text) (c : Char) (after : Text) :
    (before ++ c :: after).HasAt before.bytes c := ⟨before, after, rfl, rfl⟩

/-- Two texts with a character behind each are the same, and so are the characters, if they start
the same text and have as many bytes. -/
theorem append_cons_inj {s t s' t' : Text} (h : s ++ c :: t = s' ++ d :: t')
    (hbytes : s.bytes = s'.bytes) : s = s' ∧ c = d ∧ t = t' := by
  obtain ⟨m, rfl, hm⟩ := exists_append_of_bytes_le h (Nat.le_of_eq hbytes)
  have hnil : m = [] := by
    rw [bytes_append] at hbytes
    exact bytes_eq_zero_iff.1 (by omega)
  subst hnil
  obtain ⟨rfl, rfl⟩ := List.cons.inj hm
  exact ⟨(List.append_nil s).symm, rfl, rfl⟩

theorem HasAt.unique (hc : t.HasAt offset c) (hd : t.HasAt offset d) : c = d := by
  obtain ⟨before, after, rfl, rfl⟩ := hc
  obtain ⟨before', after', heq, hbytes⟩ := hd
  exact (append_cons_inj heq hbytes.symm).2.1

/-- A character behind another one stands in the text behind that one. -/
theorem HasAt.exists_behind (h : (before ++ c :: after).HasAt offset d)
    (hlt : before.bytes < offset) :
    ∃ middle rest : Text, after = middle ++ d :: rest ∧
      offset = before.bytes + c.utf8Size + middle.bytes := by
  obtain ⟨front, rest, heq, rfl⟩ := h
  obtain ⟨m, rfl, hm⟩ := exists_append_of_bytes_le heq (Nat.le_of_lt hlt)
  cases m with
  | nil => simp at hlt
  | cons e m =>
    obtain ⟨rfl, rfl⟩ := List.cons.inj hm
    refine ⟨m, rest, rfl, ?_⟩
    rw [bytes_append, bytes_cons, Nat.add_assoc]

/-- A character in front of a cut stands in the text in front of it. -/
theorem HasAt.exists_front (h : (before ++ after).HasAt offset c) (hlt : offset < before.bytes) :
    ∃ front middle : Text, before = front ++ c :: middle ∧ front.bytes = offset := by
  obtain ⟨front, rest, heq, rfl⟩ := h
  obtain ⟨middle, rfl⟩ := exists_append_of_bytes_lt heq hlt
  exact ⟨front, middle, rfl, rfl⟩

end Text

namespace Paren

/-- The parenthesis at `j` closes, and the one at `i` is its partner: the nearest opening one in
front of it that has no partner in front of `j`. -/
def Partners (t : Text) (i j : Nat) : Prop :=
  t.HasAt i '(' ∧ t.HasAt j ')' ∧ i < j ∧ (∀ k < j, ¬ Partners t i k) ∧
    ∀ h, i < h → h < j → t.HasAt h '(' → ∃ k, ∃ _ : k < j, Partners t h k
termination_by j

/-- A closing parenthesis without partner. -/
def IsStray (t : Text) (j : Nat) : Prop := t.HasAt j ')' ∧ ∀ i, ¬ Partners t i j

/-- An opening parenthesis without partner. -/
def IsUnclosed (t : Text) (i : Nat) : Prop := t.HasAt i '(' ∧ ∀ j, ¬ Partners t i j

/-- A pair of partners that is inside no other pair and behind no unclosed parenthesis. -/
def IsOutermost (t : Text) (i j : Nat) : Prop :=
  Partners t i j ∧ ¬ ∃ h < i, IsUnclosed t h ∨ ∃ k, Partners t h k ∧ j < k

/-! ### Text behind an opening parenthesis -/

/-- A parenthesis that is open in front of the text is closed in it. -/
def IsClosedIn (t : Text) : Prop := ∃ s r : Text, t = s ++ ')' :: r ∧ Balanced s

/-- The first stray parenthesis of a text has no stray in front of it and is at depth zero. -/
theorem exists_first_stray {t : Text} {d offset : Nat} (h : strays d offset t ≠ []) :
    ∃ s r : Text, t = s ++ ')' :: r ∧ strays d offset s = [] ∧ s.foldl depthAfter d = 0 := by
  induction t generalizing d offset with
  | nil => exact absurd rfl h
  | cons c t ih =>
    by_cases hstray : d = 0 ∧ c = ')'
    · obtain ⟨rfl, rfl⟩ := hstray
      exact ⟨[], t, rfl, rfl, rfl⟩
    · rw [strays, if_neg hstray] at h
      obtain ⟨s, r, rfl, hnone, hdepth⟩ := ih h
      exact ⟨c :: s, r, rfl, by rw [strays, if_neg hstray]; exact hnone, hdepth⟩

/-- What closes a parenthesis in front of a text is a stray one in the text by itself. -/
theorem isClosedIn_iff {t : Text} (offset : Nat) : IsClosedIn t ↔ strays 0 offset t ≠ [] := by
  constructor
  · rintro ⟨s, r, rfl, hs⟩
    rw [strays_append, hs.strays_eq_nil, hs.foldl_depthAfter, strays, if_pos ⟨rfl, rfl⟩]
    simp
  · intro h
    obtain ⟨s, r, rfl, hnone, hdepth⟩ := exists_first_stray h
    exact ⟨s, r, rfl, (balanced_iff offset s).2 ⟨hnone, hdepth⟩⟩

theorem Balanced.not_isClosedIn {t : Text} (h : Balanced t) : ¬ IsClosedIn t :=
  fun hclosed => (isClosedIn_iff 0).1 hclosed (h.strays_eq_nil 0 0)

/-- A scan that comes down to depth zero has closed the last parenthesis it started below. -/
theorem isClosedIn_of_foldl {t : Text} {d : Nat} (h : t.foldl depthAfter (d + 1) = 0) :
    IsClosedIn t := by
  rw [isClosedIn_iff 0]
  intro hnone
  have hadd := foldl_depthAfter_add hnone (d + 1)
  rw [Nat.zero_add] at hadd
  omega

/-- A parenthesis that opens in a text which ends at depth zero is closed in that text. -/
theorem isClosedIn_of_depth {s r : Text} (h : depth (s ++ '(' :: r) = 0) : IsClosedIn r := by
  rw [depth, List.foldl_append, List.foldl_cons, depthAfter_open] at h
  exact isClosedIn_of_foldl h

/-- **Induction on the parentheses of a text**: from the left, by characters outside all
parentheses, by whole pairs, and by a parenthesis that is not closed. -/
theorem pair_induction {motive : Text → Prop} (nil : motive [])
    (skip : ∀ c t, c ≠ '(' → motive t → motive (c :: t))
    (pair : ∀ s t, Balanced s → motive t → motive ('(' :: (s ++ ')' :: t)))
    (unclosed : ∀ t, ¬ IsClosedIn t → motive ('(' :: t)) (t : Text) : motive t := by
  induction hn : t.length using Nat.strongRecOn generalizing t with
  | ind n ih =>
    cases t with
    | nil => exact nil
    | cons c t =>
      rw [List.length_cons] at hn
      by_cases hopen : c = '('
      · subst hopen
        by_cases hclosed : IsClosedIn t
        · obtain ⟨s, r, rfl, hs⟩ := hclosed
          refine pair s r hs (ih r.length ?_ r rfl)
          rw [List.length_append, List.length_cons] at hn
          omega
        · exact unclosed t hclosed
      · exact skip c t hopen (ih t.length (by omega) t rfl)

theorem depthAfter_zero {c : Char} (h : c ≠ '(') : depthAfter 0 c = 0 := by
  by_cases hclose : c = ')'
  · rw [hclose, depthAfter_close]
  · exact depthAfter_plain h hclose 0

theorem depth_skip {c : Char} (h : c ≠ '(') (t : Text) : depth (c :: t) = depth t := by
  rw [depth, List.foldl_cons, depthAfter_zero h, depth]

theorem depth_pair {s : Text} (h : Balanced s) (t : Text) :
    depth ('(' :: (s ++ ')' :: t)) = depth t := by
  rw [depth, List.foldl_cons, depthAfter_open, List.foldl_append, h.foldl_depthAfter,
    List.foldl_cons, depthAfter_close, depth]

/-- The leftmost parenthesis that a text leaves open. -/
theorem exists_unclosed {t : Text} (h : depth t ≠ 0) :
    ∃ s r : Text, t = s ++ '(' :: r ∧ depth s = 0 ∧ ¬ IsClosedIn r := by
  induction t using pair_induction with
  | nil => exact absurd rfl h
  | skip c t hopen ih =>
    rw [depth_skip hopen] at h
    obtain ⟨s, r, rfl, hdepth, hr⟩ := ih h
    exact ⟨c :: s, r, rfl, by rw [depth_skip hopen, hdepth], hr⟩
  | pair s t hs ih =>
    rw [depth_pair hs] at h
    obtain ⟨s', r, rfl, hdepth, hr⟩ := ih h
    exact ⟨'(' :: (s ++ ')' :: s'), r, by simp, by rw [depth_pair hs, hdepth], hr⟩
  | unclosed t ht => exact ⟨[], t, rfl, rfl, ht⟩

/-- The rightmost parenthesis that a text leaves open has balanced text behind it. -/
theorem exists_last_unclosed {t : Text} (h : depth t ≠ 0) :
    ∃ s r : Text, t = s ++ '(' :: r ∧ Balanced r := by
  induction hn : t.length using Nat.strongRecOn generalizing t with
  | ind n ih =>
    obtain ⟨s, r, rfl, -, hr⟩ := exists_unclosed h
    by_cases hdepth : depth r = 0
    · refine ⟨s, r, rfl, (balanced_iff 0 r).2 ⟨?_, hdepth⟩⟩
      by_contra hstrays
      exact hr ((isClosedIn_iff 0).2 hstrays)
    · rw [List.length_append, List.length_cons] at hn
      obtain ⟨s', r', rfl, hbalanced⟩ := ih r.length (by omega) hdepth rfl
      exact ⟨s ++ '(' :: s', r', by simp, hbalanced⟩

/-! ### Partners have balanced text between them -/

theorem bytes_append_open (s r : Text) : (s ++ '(' :: r).bytes = s.bytes + 1 + r.bytes := by
  rw [Text.bytes_append, Text.bytes_cons, utf8Size_open, Nat.add_assoc]

/-- Parentheses at `i` and `j` with balanced text between them. -/
def Encloses (t : Text) (i j : Nat) : Prop :=
  ∃ before content after : Text, t = before ++ '(' :: (content ++ ')' :: after) ∧
    Balanced content ∧ i = before.bytes ∧ j = before.bytes + 1 + content.bytes

variable {t : Text} {i j : Nat}

/-- A parenthesis that is closed in the text behind it encloses something. -/
theorem encloses_of_isClosedIn (before : Text) {r : Text} (h : IsClosedIn r) (after : Text) :
    ∃ j, Encloses (before ++ '(' :: (r ++ after)) before.bytes j ∧
      j < before.bytes + 1 + r.bytes := by
  obtain ⟨content, rest, rfl, hcontent⟩ := h
  refine ⟨_, ⟨before, content, rest ++ after, by simp, hcontent, rfl, rfl⟩, ?_⟩
  rw [Text.bytes_append, Text.bytes_cons, utf8Size_close]
  omega

/-- What is enclosed by a parenthesis in front of a text, up to a place in that text, closes it. -/
theorem isClosedIn_of_encloses {before r after : Text}
    (h : Encloses (before ++ '(' :: (r ++ after)) before.bytes j)
    (hlt : j < before.bytes + 1 + r.bytes) : IsClosedIn r := by
  obtain ⟨before', content, after', heq, hcontent, hbytes, rfl⟩ := h
  obtain ⟨rfl, -, hrest⟩ := Text.append_cons_inj heq hbytes
  obtain ⟨k, rfl⟩ := Text.exists_append_of_bytes_lt hrest (by omega)
  exact ⟨content, k, rfl, hcontent⟩

/-- **Partners are parentheses with balanced text between them.** -/
theorem partners_iff : Partners t i j ↔ Encloses t i j := by
  induction j using Nat.strongRecOn generalizing i with
  | ind j ih =>
    rw [Partners]
    constructor
    · rintro ⟨⟨before, rest, rfl, rfl⟩, hclose, hlt, hfree, hnear⟩
      obtain ⟨content, after, rfl, rfl⟩ := hclose.exists_behind hlt
      rw [utf8Size_open] at *
      refine ⟨before, content, after, rfl, (balanced_iff 0 content).2 ⟨?_, ?_⟩, rfl, rfl⟩
      · -- a stray parenthesis in the content would be the partner of the first one
        by_contra hstrays
        obtain ⟨k, hk, hklt⟩ :=
          encloses_of_isClosedIn before ((isClosedIn_iff 0).2 hstrays) (')' :: after)
        exact hfree k hklt ((ih k hklt).2 hk)
      · -- an unclosed one in the content would be nearer than the first one
        by_contra hdepth
        obtain ⟨s, r, rfl, -, hr⟩ := exists_unclosed hdepth
        have hplace : before ++ '(' :: ((s ++ '(' :: r) ++ ')' :: after) =
            (before ++ '(' :: s) ++ '(' :: (r ++ ')' :: after) := by simp
        have hstart := bytes_append_open before s
        have hend := bytes_append_open s r
        obtain ⟨k, hklt, hk⟩ := hnear (before ++ '(' :: s).bytes (by omega) (by omega)
          (by rw [hplace]; exact Text.hasAt_append _ _ _)
        rw [ih k hklt, hplace] at hk
        exact hr (isClosedIn_of_encloses hk (by omega))
    · rintro ⟨before, content, after, rfl, hcontent, rfl, rfl⟩
      refine ⟨Text.hasAt_append _ _ _, ?_, by omega, fun k hk hpartners => ?_,
        fun h hlt hbefore hopen => ?_⟩
      · exact ⟨before ++ '(' :: content, after, by simp, bytes_append_open before content⟩
      · exact hcontent.not_isClosedIn (isClosedIn_of_encloses ((ih k hk).1 hpartners) hk)
      · obtain ⟨middle, rest, hrest, rfl⟩ := hopen.exists_behind hlt
        rw [utf8Size_open] at *
        obtain ⟨r, rfl⟩ := Text.exists_append_of_bytes_lt hrest (by omega)
        obtain rfl : rest = r ++ ')' :: after := by simpa using hrest.symm
        -- the content is balanced, so what opens in it is closed in it
        obtain ⟨k, hk, hklt⟩ := encloses_of_isClosedIn (before ++ '(' :: middle)
          (isClosedIn_of_depth hcontent.depth_eq_zero) (')' :: after)
        have hplace : (before ++ '(' :: middle) ++ '(' :: (r ++ ')' :: after) =
            before ++ '(' :: ((middle ++ '(' :: r) ++ ')' :: after) := by simp
        have hstart := bytes_append_open before middle
        have hend := bytes_append_open middle r
        have hin : k < before.bytes + 1 + (middle ++ '(' :: r).bytes := by omega
        rw [hplace, hstart] at hk
        exact ⟨k, hin, (ih k hin).2 hk⟩

theorem Partners.hasAt_left (h : Partners t i j) : t.HasAt i '(' := by
  rw [Partners] at h
  exact h.1

/-- An opening parenthesis has one partner. -/
theorem Partners.right_unique {k : Nat} (h : Partners t i j) (hk : Partners t i k) : j = k := by
  have hfree : ∀ {a b}, Partners t i a → Partners t i b → ¬ b < a := by
    intro a b ha hb hlt
    rw [Partners] at ha
    exact ha.2.2.2.1 b hlt hb
  have := hfree h hk
  have := hfree hk h
  omega

/-! ### Partners and depth -/

/-- **A closing parenthesis is stray exactly at depth zero.** -/
theorem isStray_iff : IsStray t j ↔
    ∃ before after : Text, t = before ++ ')' :: after ∧ before.bytes = j ∧ depth before = 0 := by
  constructor
  · rintro ⟨⟨before, after, rfl, rfl⟩, hfree⟩
    refine ⟨before, after, rfl, rfl, ?_⟩
    by_contra hdepth
    obtain ⟨s, r, rfl, hr⟩ := exists_last_unclosed hdepth
    exact hfree s.bytes
      (partners_iff.2 ⟨s, r, after, by simp, hr, rfl, bytes_append_open s r⟩)
  · rintro ⟨before, after, rfl, rfl, hdepth⟩
    refine ⟨Text.hasAt_append _ _ _, fun i hpartners => ?_⟩
    obtain ⟨front, content, after', heq, hcontent, rfl, hbytes⟩ := partners_iff.1 hpartners
    have hcut : before ++ ')' :: after = (front ++ '(' :: content) ++ ')' :: after' := by
      simpa using heq
    obtain ⟨rfl, -, -⟩ := Text.append_cons_inj hcut (hbytes.trans (bytes_append_open _ _).symm)
    exact hcontent.not_isClosedIn (isClosedIn_of_depth hdepth)

/-- An opening parenthesis is unclosed exactly if the text behind it does not close it. -/
theorem isUnclosed_iff : IsUnclosed t i ↔
    ∃ before after : Text, t = before ++ '(' :: after ∧ before.bytes = i ∧ ¬ IsClosedIn after := by
  constructor
  · rintro ⟨⟨before, after, rfl, rfl⟩, hfree⟩
    refine ⟨before, after, rfl, rfl, fun hclosed => ?_⟩
    obtain ⟨j, hj, -⟩ := encloses_of_isClosedIn before hclosed []
    rw [List.append_nil] at hj
    exact hfree j (partners_iff.2 hj)
  · rintro ⟨before, after, rfl, rfl, hopen⟩
    refine ⟨Text.hasAt_append _ _ _, fun j hpartners => hopen ?_⟩
    obtain ⟨front, content, after', heq, hcontent, hbytes, -⟩ := partners_iff.1 hpartners
    obtain ⟨-, -, rfl⟩ := Text.append_cons_inj heq hbytes
    exact ⟨content, after', rfl, hcontent⟩

/-- A parenthesis that is still open in front of a pair has its partner, if any, behind the pair. -/
theorem Partners.lt_of_not_isClosedIn {s r u : Text} {k : Nat} (hr : ¬ IsClosedIn r)
    (h : Partners (s ++ '(' :: (r ++ '(' :: u)) s.bytes k)
    (hinner : Partners (s ++ '(' :: (r ++ '(' :: u)) (s.bytes + 1 + r.bytes) j) : j < k := by
  have hpair := h
  rw [Partners] at hpair
  obtain ⟨-, hclose, -, -, hnear⟩ := hpair
  have hbehind : s.bytes + 1 + r.bytes < k := by
    rcases Nat.lt_trichotomy k (s.bytes + 1 + r.bytes) with hlt | rfl | hlt
    · exact absurd (isClosedIn_of_encloses (partners_iff.1 h) hlt) hr
    · exact absurd (hclose.unique hinner.hasAt_left) (by decide)
    · exact hlt
  -- the inner parenthesis is nearer, so it has found its partner already
  obtain ⟨k', hk', hfound⟩ := hnear _ (by omega) hbehind hinner.hasAt_left
  rwa [hinner.right_unique hfound]

/-- **Partners are an outermost pair exactly if they start at depth zero.** -/
theorem isOutermost_iff : IsOutermost t i j ↔
    ∃ before content after : Text, t = before ++ '(' :: (content ++ ')' :: after) ∧
      Balanced content ∧ i = before.bytes ∧ j = before.bytes + 1 + content.bytes ∧
      depth before = 0 := by
  constructor
  · rintro ⟨hpartners, houter⟩
    obtain ⟨before, content, after, rfl, hcontent, rfl, rfl⟩ := partners_iff.1 hpartners
    refine ⟨before, content, after, rfl, hcontent, rfl, rfl, ?_⟩
    by_contra hdepth
    obtain ⟨s, r, rfl, -, hr⟩ := exists_unclosed hdepth
    rw [bytes_append_open, List.append_assoc, List.cons_append] at hpartners houter
    refine houter ⟨s.bytes, by omega, ?_⟩
    by_cases hfree : ∃ k, Partners (s ++ '(' :: (r ++ '(' :: (content ++ ')' :: after))) s.bytes k
    · obtain ⟨k, hk⟩ := hfree
      exact .inr ⟨k, hk, hk.lt_of_not_isClosedIn hr hpartners⟩
    · exact .inl ⟨Text.hasAt_append _ _ _, not_exists.1 hfree⟩
  · rintro ⟨before, content, after, rfl, hcontent, rfl, rfl, hdepth⟩
    refine ⟨partners_iff.2 ⟨before, content, after, rfl, hcontent, rfl, rfl⟩, ?_⟩
    rintro ⟨h, hlt, houter⟩
    have hopen : (before ++ '(' :: (content ++ ')' :: after)).HasAt h '(' := by
      rcases houter with hunclosed | ⟨k, hk, -⟩
      · exact hunclosed.1
      · exact hk.hasAt_left
    obtain ⟨front, middle, rfl, rfl⟩ := hopen.exists_front hlt
    -- what opens in front of the pair is closed there, at depth zero
    obtain ⟨k, hk, hklt⟩ := encloses_of_isClosedIn front (isClosedIn_of_depth hdepth)
      ('(' :: (content ++ ')' :: after))
    rw [bytes_append_open, List.append_assoc, List.cons_append] at houter
    rcases houter with hunclosed | ⟨k', hk', hbehind⟩
    · exact hunclosed.2 k (partners_iff.2 hk)
    · have hsame := (partners_iff.2 hk).right_unique hk'
      omega

end Paren

end GraphTex
