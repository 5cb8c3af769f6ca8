/-!
# Text and its length in bytes

Sources, tokens and rendered fragments are lists of characters. Every offset counts the bytes of
the UTF-8 encoding, so the one measure here, `Text.bytes`, is what turns characters into offsets.
It is additive over `++`. Texts are ordered by their code points.
-/

namespace GraphTex

/-- Text as the list of its characters. -/
abbrev Text := List Char

namespace Text

/-- The number of bytes of the UTF-8 encoding. -/
def bytes : Text → Nat
  | [] => 0
  | c :: rest => c.utf8Size + bytes rest

@[simp] theorem bytes_nil : bytes [] = 0 := rfl

@[simp] theorem bytes_cons (c : Char) (t : Text) : bytes (c :: t) = c.utf8Size + bytes t := rfl

@[simp] theorem bytes_append (s t : Text) : bytes (s ++ t) = bytes s + bytes t := by
  induction s with
  | nil => simp
  | cons c s ih => simp [ih, Nat.add_assoc]

/-- The measure agrees with the size of the encoded string. -/
theorem utf8ByteSize_ofList (t : Text) : (String.ofList t).utf8ByteSize = bytes t := by
  induction t with
  | nil => rfl
  | cons c t ih =>
    have split : String.ofList (c :: t) = String.singleton c ++ String.ofList t := by
      rw [String.singleton_eq_ofList, ← String.ofList_append]
      rfl
    rw [split, String.utf8ByteSize_append, String.utf8ByteSize_singleton, ih, bytes_cons]

/-- A run of characters of a kind ends where the text goes on with another one. -/
theorem takeWhile_append_of_head {p : Char → Bool} {s t : Text} (hs : ∀ c ∈ s, p c = true)
    (ht : ∀ c, t.head? = some c → p c = false) :
    (s ++ t).takeWhile p = s ∧ (s ++ t).dropWhile p = t := by
  rw [List.takeWhile_append_of_pos hs, List.dropWhile_append_of_pos hs]
  cases t with
  | nil => simp
  | cons c t =>
    have hc : ¬ p c = true := by simp [ht c rfl]
    rw [List.takeWhile_cons_of_neg hc, List.dropWhile_cons_of_neg hc, List.append_nil]
    exact ⟨rfl, rfl⟩

/-- The text comes before another one in the order of code points. -/
def isBefore (s t : Text) : Bool := List.lex s t fun c d => decide (c.toNat < d.toNat)

end Text

end GraphTex
