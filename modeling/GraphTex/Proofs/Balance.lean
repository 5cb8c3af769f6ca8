import GraphTex.Paren
import Mathlib.Tactic.SplitIfs

/-!
# Balanced text

The parentheses of a text match in pairs exactly if a scan from depth zero meets no stray closing
parenthesis and ends at depth zero (`balanced_iff`). A scan that crosses balanced text comes back
to the depth it started at, whatever that depth is, so every scanner can step over such text as a
whole.
-/

namespace GraphTex

namespace Paren

/-- Text whose parentheses match in pairs. -/
inductive Balanced : Text → Prop
  | nil : Balanced []
  | plain {c : Char} {t : Text} (hopen : c ≠ '(') (hclose : c ≠ ')') (ht : Balanced t) :
      Balanced (c :: t)
  | nested {s t : Text} (hs : Balanced s) (ht : Balanced t) : Balanced ('(' :: (s ++ ')' :: t))

theorem utf8Size_open : '('.utf8Size = 1 := by decide

theorem utf8Size_close : ')'.utf8Size = 1 := by decide

@[simp] theorem depthAfter_open (d : Nat) : depthAfter d '(' = d + 1 := rfl

@[simp] theorem depthAfter_close (d : Nat) : depthAfter d ')' = d - 1 := rfl

theorem depthAfter_plain {c : Char} (hopen : c ≠ '(') (hclose : c ≠ ')') (d : Nat) :
    depthAfter d c = d := by
  unfold depthAfter
  split <;> simp_all

theorem strays_append (d offset : Nat) (s t : Text) :
    strays d offset (s ++ t) =
      strays d offset s ++ strays (s.foldl depthAfter d) (offset + s.bytes) t := by
  induction s generalizing d offset with
  | nil => simp [strays]
  | cons c s ih =>
    simp only [List.cons_append, strays, ih, List.foldl_cons, Text.bytes_cons, ← Nat.add_assoc]
    split <;> simp

/-- Every stray report is at a closing parenthesis. -/
theorem exists_of_mem_strays {t : Text} {d offset : Nat} {r : Report} (h : r ∈ strays d offset t) :
    ∃ before after : Text, t = before ++ ')' :: after ∧ r = mismatch (offset + before.bytes) := by
  induction t generalizing d offset with
  | nil => simp [strays] at h
  | cons c t ih =>
    have hlater : r ∈ strays (depthAfter d c) (offset + c.utf8Size) t →
        ∃ before after : Text,
          c :: t = before ++ ')' :: after ∧ r = mismatch (offset + before.bytes) := by
      intro h
      obtain ⟨before, after, rfl, rfl⟩ := ih h
      exact ⟨c :: before, after, rfl, by rw [Text.bytes_cons, Nat.add_assoc]⟩
    rw [strays] at h
    split_ifs at h with hstray
    · rcases List.mem_cons.1 h with rfl | h
      · exact ⟨[], t, by rw [hstray.2, List.nil_append], rfl⟩
      · exact hlater h
    · exact hlater h

theorem eq_mismatch_of_mem_strays {t : Text} {d offset : Nat} {r : Report}
    (h : r ∈ strays d offset t) : ∃ o, r = mismatch o := by
  obtain ⟨before, -, -, rfl⟩ := exists_of_mem_strays h
  exact ⟨_, rfl⟩

namespace Balanced

variable {s t : Text}

theorem append (hs : Balanced s) (ht : Balanced t) : Balanced (s ++ t) := by
  induction hs with
  | nil => exact ht
  | plain hopen hclose _ ih => exact .plain hopen hclose ih
  | nested hs _ _ ih =>
    rw [List.cons_append, List.append_assoc, List.cons_append]
    exact .nested hs ih

/-- Plain characters are balanced. -/
theorem of_forall (h : ∀ c ∈ t, c ≠ '(' ∧ c ≠ ')') : Balanced t := by
  induction t with
  | nil => exact .nil
  | cons c t ih =>
    obtain ⟨hopen, hclose⟩ := h c List.mem_cons_self
    exact .plain hopen hclose (ih fun d hd => h d (List.mem_cons_of_mem c hd))

theorem enclosed (h : Balanced t) : Balanced ('(' :: (t ++ [')'])) := .nested h .nil

theorem foldl_depthAfter (h : Balanced t) (d : Nat) : t.foldl depthAfter d = d := by
  induction h generalizing d with
  | nil => rfl
  | plain hopen hclose _ ih => rw [List.foldl_cons, depthAfter_plain hopen hclose, ih]
  | nested _ _ ihs iht => simp [ihs, iht]

theorem depth_eq_zero (h : Balanced t) : depth t = 0 := h.foldl_depthAfter 0

theorem strays_eq_nil (h : Balanced t) (d offset : Nat) : strays d offset t = [] := by
  induction h generalizing d offset with
  | nil => rfl
  | plain hopen hclose _ ih => simp [strays, depthAfter_plain hopen hclose, hclose, ih]
  | nested hs _ ihs iht =>
    simp [strays, strays_append, ihs, iht, hs.foldl_depthAfter]

end Balanced

/-! ### Text that closes parentheses

A scan that starts below some open parentheses and ends at depth zero closes them one by one, with
balanced text between. -/

/-- The text closes `d` parentheses that are open in front of it, and is balanced otherwise. -/
def Closes : Nat → Text → Prop
  | 0, t => Balanced t
  | d + 1, t => ∃ s r, t = s ++ ')' :: r ∧ Balanced s ∧ Closes d r

theorem Closes.append {d : Nat} {s t : Text} (hs : Balanced s) (ht : Closes d t) :
    Closes d (s ++ t) := by
  cases d with
  | zero => exact hs.append ht
  | succ d =>
    obtain ⟨u, r, rfl, hu, hr⟩ := ht
    exact ⟨s ++ u, r, by simp, hs.append hu, hr⟩

theorem closes_of_strays (t : Text) (d offset : Nat) (hstrays : strays d offset t = [])
    (hdepth : t.foldl depthAfter d = 0) : Closes d t := by
  induction t generalizing d offset with
  | nil =>
    obtain rfl : d = 0 := hdepth
    exact Balanced.nil
  | cons c t ih =>
    rw [List.foldl_cons] at hdepth
    rw [strays] at hstrays
    split_ifs at hstrays with hstray
    have hrest := ih _ _ hstrays hdepth
    by_cases hopen : c = '('
    · subst hopen
      obtain ⟨s, r, rfl, hs, hr⟩ := hrest
      simpa using Closes.append hs.enclosed hr
    by_cases hclose : c = ')'
    · subst hclose
      cases d with
      | zero => exact absurd ⟨rfl, rfl⟩ hstray
      | succ d => exact ⟨[], t, rfl, .nil, hrest⟩
    · rw [depthAfter_plain hopen hclose] at hrest
      exact Closes.append (.plain hopen hclose .nil) hrest

/-- **Balance is what the depth scan finds.** -/
theorem balanced_iff (offset : Nat) (t : Text) :
    Balanced t ↔ strays 0 offset t = [] ∧ depth t = 0 :=
  ⟨fun h => ⟨h.strays_eq_nil 0 offset, h.depth_eq_zero⟩,
    fun ⟨hstrays, hdepth⟩ => closes_of_strays t 0 offset hstrays hdepth⟩

/-- A character that is not stray goes up or down by the same amount at every larger depth. -/
theorem depthAfter_add {d : Nat} {c : Char} (hstray : ¬ (d = 0 ∧ c = ')')) (k : Nat) :
    depthAfter (d + k) c = depthAfter d c + k := by
  by_cases hopen : c = '('
  · subst hopen
    simp only [depthAfter_open]
    omega
  by_cases hclose : c = ')'
  · subst hclose
    simp only [depthAfter_close]
    simp only [and_true] at hstray
    omega
  · simp only [depthAfter_plain hopen hclose]

/-- A text without stray parenthesis goes up and down by the same amount at every larger depth. -/
theorem foldl_depthAfter_add {d offset : Nat} {t : Text} (h : strays d offset t = []) (k : Nat) :
    t.foldl depthAfter (d + k) = t.foldl depthAfter d + k := by
  induction t generalizing d offset with
  | nil => rfl
  | cons c t ih =>
    rw [strays] at h
    split_ifs at h with hstray
    rw [List.foldl_cons, List.foldl_cons, depthAfter_add hstray, ih h]

namespace Balanced

variable {s t : Text}

/-- No place in balanced text is outside the parentheses around it. -/
theorem le_foldl_depthAfter (h : Balanced (s ++ t)) (d : Nat) : d ≤ s.foldl depthAfter d := by
  have hstrays := h.strays_eq_nil 0 0
  rw [strays_append, List.append_eq_nil_iff] at hstrays
  have hadd := foldl_depthAfter_add hstrays.1 d
  rw [Nat.zero_add] at hadd
  omega

/-- Balanced text can be cut at depth zero. -/
theorem of_append (h : Balanced (s ++ t)) (hdepth : depth s = 0) : Balanced s ∧ Balanced t := by
  have hstrays := h.strays_eq_nil 0 0
  have hzero := h.depth_eq_zero
  rw [strays_append, List.append_eq_nil_iff] at hstrays
  rw [depth, List.foldl_append] at hzero
  change s.foldl depthAfter 0 = 0 at hdepth
  rw [hdepth] at hstrays hzero
  exact ⟨(balanced_iff 0 s).2 ⟨hstrays.1, hdepth⟩, (balanced_iff _ t).2 ⟨hstrays.2, hzero⟩⟩

end Balanced

end Paren

end GraphTex
