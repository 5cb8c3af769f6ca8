import GraphTex.Text
import Mathlib.Data.List.Lex
import Mathlib.Tactic.SplitIfs

/-!
# The order of texts

Texts are compared by their code points. In UTF-8 the bytes of a character with a smaller code point
come before those of one with a greater code point, whatever follows (`lex_utf8EncodeChar`). So the
order of texts is the order of their bytes (`byteBefore_iff`).
-/

namespace GraphTex

/-- The first character has the smaller code point. -/
def CodeBefore (c d : Char) : Prop := c.toNat < d.toNat

instance : Std.Asymm CodeBefore where
  asymm _ _ := Nat.lt_asymm

instance : Std.Trichotomous CodeBefore where
  trichotomous _ _ hcd hdc :=
    Char.toNat_inj.1 (Nat.le_antisymm (Nat.le_of_not_lt hdc) (Nat.le_of_not_lt hcd))

instance : IsOrderConnected Char CodeBefore where
  conn c d _ h := (Nat.lt_or_ge c.toNat d.toNat).imp id fun hle => Nat.lt_of_le_of_lt hle h

theorem Text.isBefore_iff {s t : Text} : s.isBefore t = true ↔ List.Lex CodeBefore s t := by
  have hcode : (fun c d : Char => decide (c.toNat < d.toNat) = true) = CodeBefore := by
    funext c d
    rw [decide_eq_true_eq]
    rfl
  rw [Text.isBefore, List.lex_eq_true_iff_lex, hcode]

/-! ### Bytes -/

/-- One more byte in front, which is not greater, and decides if it is smaller. -/
theorem lex_cons_of_le {a b : Nat} {s t : List UInt8} (hb : b < 256) (hle : a ≤ b)
    (h : a = b → List.Lex (· < ·) s t) :
    List.Lex (· < ·) (UInt8.ofNat a :: s) (UInt8.ofNat b :: t) := by
  rcases Nat.lt_or_eq_of_le hle with hlt | rfl
  · refine .rel ?_
    rw [UInt8.lt_iff_toNat_lt, UInt8.toNat_ofNat', UInt8.toNat_ofNat']
    omega
  · exact .cons (h rfl)

/-- **The bytes of characters have the order of the code points**, whatever follows. -/
theorem lex_utf8EncodeChar {c d : Char} (h : CodeBefore c d) (s t : List UInt8) :
    List.Lex (· < ·) (String.utf8EncodeChar c ++ s) (String.utf8EncodeChar d ++ t) := by
  have hlt : c.val.toNat < d.val.toNat := h
  have hd : d.val.toNat < 1114112 := by
    rcases d.valid with hlow | ⟨-, hhigh⟩
    · exact Nat.lt_trans hlow (by decide)
    · exact hhigh
  rw [String.utf8EncodeChar, String.utf8EncodeChar]
  generalize c.val.toNat = v at hlt
  generalize d.val.toNat = w at hlt hd
  split_ifs
  all_goals try omega
  -- a longer encoding has a greater first byte, and of two that are as long, the first bytes that
  -- differ are in order
  all_goals refine lex_cons_of_le (by omega) (by omega) fun _ => ?_
  all_goals try omega
  all_goals refine lex_cons_of_le (by omega) (by omega) fun _ => ?_
  all_goals try omega
  all_goals refine lex_cons_of_le (by omega) (by omega) fun _ => ?_
  all_goals try omega
  refine lex_cons_of_le (by omega) (by omega) fun _ => ?_
  omega

theorem lex_utf8EncodeChars {s t : Text} (h : List.Lex CodeBefore s t) :
    List.Lex (· < ·) (s.flatMap String.utf8EncodeChar) (t.flatMap String.utf8EncodeChar) := by
  induction h with
  | @nil c t =>
    rw [List.flatMap_nil, List.flatMap_cons]
    cases hc : String.utf8EncodeChar c with
    | nil => exact absurd hc String.utf8EncodeChar_ne_nil
    | cons b bs => exact .nil
  | rel hcd =>
    rw [List.flatMap_cons, List.flatMap_cons]
    exact lex_utf8EncodeChar hcd _ _
  | cons _ ih =>
    rw [List.flatMap_cons, List.flatMap_cons]
    exact ih.append_left _ _

/-- The bytes of the first string come before those of the second one, byte by byte. -/
def ByteBefore (a b : String) : Prop :=
  List.Lex (· < ·) a.toUTF8.data.toList b.toUTF8.data.toList

theorem toList_toUTF8 (a : String) :
    a.toUTF8.data.toList = a.toList.flatMap String.utf8EncodeChar := by
  rw [String.toUTF8, ← String.utf8Encode_toList, List.utf8Encode, List.data_toByteArray]

/-- **The order of code points is the order of bytes.** -/
theorem byteBefore_iff {a b : String} :
    ByteBefore a b ↔ List.Lex CodeBefore a.toList b.toList := by
  have hbytes : ∀ {x y : String}, List.Lex CodeBefore x.toList y.toList → ByteBefore x y := by
    intro x y h
    rw [ByteBefore, toList_toUTF8, toList_toUTF8]
    exact lex_utf8EncodeChars h
  refine ⟨fun h => ?_, hbytes⟩
  rcases trichotomous_of (List.Lex CodeBefore) a.toList b.toList with hlt | heq | hgt
  · exact hlt
  · rw [String.toList_inj.1 heq] at h
    exact absurd h (asymm_of (List.Lex (· < ·)) h)
  · exact absurd h (asymm_of (List.Lex (· < ·)) (hbytes hgt))

end GraphTex
