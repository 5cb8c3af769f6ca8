import GraphTex.Json
import GraphTex.Text
import Mathlib.Tactic.SplitIfs

/-!
# A reader of JSON texts

`Json.read?` reads a JSON text: blanks around all parts, strings with their escapes and code units,
numbers without leading zeros, and arrays and objects without a comma behind their last part. It is
made for JSON and not for the texts that are written here, which are some of all those it reads.
Strings are read back from their quoted form (`readString_quote`), and numbers from their digits, if
the text does not go on with a number behind them (`reads_int`, `reads_real`).
-/

namespace GraphTex.Json

/-! ### The reader -/

/-- A way to read something at the start of a text. The rest of the text is given back. -/
abbrev Reader (α : Type) := Text → Option (α × Text)

/-- A blank between the parts of a JSON text. -/
def isSpacing (c : Char) : Bool := c == ' ' || c == '\t' || c == '\n' || c == '\r'

/-- What stands behind the blanks at the start of a text. -/
def skip (t : Text) : Text := t.dropWhile isSpacing

/-- The value of a hexadecimal digit. -/
def hexDigit? (c : Char) : Option Nat :=
  if c.isDigit then some (c.toNat - '0'.toNat)
  else if 'a' ≤ c ∧ c ≤ 'f' then some (c.toNat - 'a'.toNat + 10)
  else if 'A' ≤ c ∧ c ≤ 'F' then some (c.toNat - 'A'.toNat + 10)
  else none

/-- Reads four hexadecimal digits as a code unit. -/
def readUnit : Reader Nat
  | a :: b :: c :: d :: t => do
    let a ← hexDigit? a
    let b ← hexDigit? b
    let c ← hexDigit? c
    let d ← hexDigit? d
    some (a * 0x1000 + b * 0x100 + c * 0x10 + d, t)
  | _ => none

/-- Reads the character that starts with a code unit. The first of a pair of surrogates needs the
second one behind it, which never stands alone. -/
def readSurrogates (unit : Nat) : Reader Char := fun t =>
  if 0xD800 ≤ unit ∧ unit < 0xDC00 then
    match t with
    | '\\' :: 'u' :: t => do
      let (low, t) ← readUnit t
      if 0xDC00 ≤ low ∧ low < 0xE000 then
        some (Char.ofNat (0x10000 + (unit - 0xD800) * 0x400 + (low - 0xDC00)), t)
      else none
    | _ => none
  else if 0xDC00 ≤ unit ∧ unit < 0xE000 then none
  else some (Char.ofNat unit, t)

/-- The character that a single character behind a backslash stands for. -/
def unescape? : Char → Option Char
  | '"' => some '"'
  | '\\' => some '\\'
  | '/' => some '/'
  | 'b' => some '\x08'
  | 'f' => some '\x0c'
  | 'n' => some '\n'
  | 'r' => some '\r'
  | 't' => some '\t'
  | _ => none

/-- Reads one character of a string. Control characters stand in a string only as escapes. -/
def readChar : Reader Char
  | '\\' :: 'u' :: t => do
    let (unit, t) ← readUnit t
    readSurrogates unit t
  | '\\' :: c :: t => (unescape? c).map fun c => (c, t)
  | c :: t => if c = '"' ∨ c = '\\' ∨ c.toNat < 0x20 then none else some (c, t)
  | [] => none

/-- Reads less than `count` characters up to a closing quote. -/
def readChars : Nat → Reader Text
  | 0, _ => none
  | _ + 1, '"' :: t => some ([], t)
  | count + 1, t => do
    let (c, t) ← readChar t
    let (s, t) ← readChars count t
    some (c :: s, t)

/-- Reads a string behind its opening quote. -/
def readString : Reader String := fun t =>
  (readChars t.length t).map fun (s, t) => (String.ofList s, t)

/-- Reads digits, at least one of them. -/
def readDigits : Reader Text := fun t =>
  match t.takeWhile Char.isDigit with
  | [] => none
  | digits => some (digits, t.dropWhile Char.isDigit)

/-- The number that digits stand for. -/
def ofDigits (digits : Text) : Nat := Nat.ofDigitChars 10 digits 0

/-- Reads the digits of a whole number, which start with a zero only if there is no other digit. -/
def readWhole : Reader Text := fun t => do
  let (digits, t) ← readDigits t
  if digits.head? = some '0' ∧ digits ≠ ['0'] then none else some (digits, t)

/-- Reads the digits of a fraction, if there is a point. -/
def readFraction : Reader Text
  | '.' :: t => readDigits t
  | t => some ([], t)

/-- Reads an exponent, if there is a letter for it. -/
def readExponent : Reader (Option Int)
  | c :: t =>
    if c = 'e' ∨ c = 'E' then
      match t with
      | '-' :: t => (readDigits t).map fun (digits, t) => (some (-ofDigits digits : Int), t)
      | '+' :: t | t => (readDigits t).map fun (digits, t) => (some (ofDigits digits : Int), t)
    else some (none, c :: t)
  | [] => some (none, [])

/-- The number with the given parts. It is whole if it has no fraction and no exponent. -/
def number (sign : Int) (whole fraction : Text) (exponent : Option Int) : Json :=
  match fraction, exponent with
  | [], none => .int (sign * ofDigits whole)
  | fraction, exponent =>
    -- a large exponent moves the point behind the last digit, and further on there are zeros
    let scale : Int := fraction.length - exponent.getD 0
    .real (sign * ofDigits (whole ++ fraction ++ List.replicate (-scale).toNat '0')) scale.toNat

/-- Reads a number behind its sign. -/
def readUnsigned (sign : Int) : Reader Json := fun t => do
  let (whole, t) ← readWhole t
  let (fraction, t) ← readFraction t
  let (exponent, t) ← readExponent t
  some (number sign whole fraction exponent, t)

/-- Reads a number. -/
def readNumber : Reader Json
  | '-' :: t => readUnsigned (-1) t
  | t => readUnsigned 1 t

section containers

variable {α : Type} (closing : Char) (inner : Reader α)

/-- Reads less than `count` parts, each behind a comma, up to the closing character. -/
def readMore : Nat → Reader (List α)
  | 0, _ => none
  | count + 1, t =>
    match skip t with
    | [] => none
    | c :: t =>
      if c = closing then some ([], t)
      else if c = ',' then do
        let (part, t) ← inner t
        let (parts, t) ← readMore count t
        some (part :: parts, t)
      else none

/-- Reads parts with commas between them, up to the closing character. -/
def readParts : Reader (List α) := fun t =>
  match skip t with
  | [] => none
  | c :: rest =>
    if c = closing then some ([], rest)
    else do
      let (part, t) ← inner t
      let (parts, t) ← readMore closing inner t.length t
      some (part :: parts, t)

end containers

/-- Reads a key and, behind a colon, a value. -/
def readMember (inner : Reader Json) : Reader (String × Json) := fun t =>
  match skip t with
  | '"' :: t => do
    let (key, t) ← readString t
    match skip t with
    | ':' :: t => (inner t).map fun (value, t) => ((key, value), t)
    | _ => none
  | _ => none

/-- Reads a value that is nested less than `fuel` deep. -/
def readValue : Nat → Reader Json
  | 0, _ => none
  | fuel + 1, t =>
    match skip t with
    | 'n' :: 'u' :: 'l' :: 'l' :: t => some (.null, t)
    | 't' :: 'r' :: 'u' :: 'e' :: t => some (.bool true, t)
    | 'f' :: 'a' :: 'l' :: 's' :: 'e' :: t => some (.bool false, t)
    | '"' :: t => (readString t).map fun (s, t) => (.str s, t)
    | '[' :: t => (readParts ']' (readValue fuel) t).map fun (items, t) => (.arr items, t)
    | '{' :: t =>
      (readParts '}' (readMember (readValue fuel)) t).map fun (fields, t) => (.obj fields, t)
    | t => readNumber t

/-- The value that a whole text stands for. -/
def read? (s : String) : Option Json :=
  match readValue (s.toList.length + 1) s.toList with
  | some (j, t) => if skip t = [] then some j else none
  | none => none

/-! ### Blanks -/

theorem skip_append {gap : Text} (h : ∀ c ∈ gap, isSpacing c = true) (t : Text) :
    skip (gap ++ t) = skip t :=
  List.dropWhile_append_of_pos h

theorem skip_cons {c : Char} (h : isSpacing c = false) (t : Text) : skip (c :: t) = c :: t :=
  List.dropWhile_cons_of_neg (by simp [h])

theorem isSpacing_of_mem_newline {level : Nat} {c : Char} (h : c ∈ (newline level).toList) :
    isSpacing c = true := by
  simp only [newline, String.toList_append, String.toList_ofList, List.mem_append] at h
  rcases h with h | h
  · rw [List.mem_singleton.1 h]
    rfl
  · rw [List.eq_of_mem_replicate h]
    rfl

@[simp] theorem skip_newline (level : Nat) (t : Text) :
    skip ((newline level).toList ++ t) = skip t :=
  skip_append (fun _ => isSpacing_of_mem_newline) t

/-! ### Strings -/

theorem hexDigit?_digitChar {d : Nat} (h : d < 16) : hexDigit? (Nat.digitChar d) = some d := by
  have hall : ∀ d < 16, hexDigit? (Nat.digitChar d) = some d := by decide
  exact hall d h

/-- A control character is read back from its code unit. -/
theorem readChar_unit {c : Char} (h : c.toNat < 0x20) (t : Text) :
    readChar ('\\' :: 'u' :: '0' :: '0' :: Nat.digitChar (c.toNat / 16) ::
      Nat.digitChar (c.toNat % 16) :: t) = some (c, t) := by
  have hzero : hexDigit? '0' = some 0 := rfl
  have hhigh := hexDigit?_digitChar (d := c.toNat / 16) (by omega)
  have hlow := hexDigit?_digitChar (d := c.toNat % 16) (by omega)
  have hunit : 0 * 0x1000 + 0 * 0x100 + c.toNat / 16 * 0x10 + c.toNat % 16 = c.toNat := by omega
  simp only [readChar, readUnit, hzero, hhigh, hlow, hunit, Option.bind_eq_bind, Option.bind_some]
  unfold readSurrogates
  rw [if_neg (by omega), if_neg (by omega), Char.ofNat_toNat]

theorem readChar_escape (c : Char) (t : Text) : readChar (escape c ++ t) = some (c, t) := by
  unfold escape
  split
  case h_8 hquote hbackslash _ _ _ _ _ =>
    split_ifs with hcontrol
    · exact readChar_unit hcontrol t
    · simp only [List.singleton_append]
      unfold readChar
      split <;> simp_all
  all_goals rfl

/-- No escape starts with the quote that closes a string. -/
theorem exists_head_escape (c : Char) : ∃ d s, escape c = d :: s ∧ d ≠ '"' := by
  unfold escape
  split
  case h_8 hquote _ _ _ _ _ _ =>
    split_ifs
    · exact ⟨_, _, rfl, by decide⟩
    · exact ⟨_, _, rfl, hquote⟩
  all_goals exact ⟨_, _, rfl, by decide⟩

theorem readChars_escape (s t : Text) {count : Nat} (h : s.length < count) :
    readChars count (s.flatMap escape ++ '"' :: t) = some (s, t) := by
  induction s generalizing count with
  | nil =>
    cases count with
    | zero => exact absurd h (Nat.lt_irrefl 0)
    | succ count => rfl
  | cons c s ih =>
    cases count with
    | zero => exact absurd h (Nat.not_lt_zero _)
    | succ count =>
      have hread := readChar_escape c (s.flatMap escape ++ '"' :: t)
      obtain ⟨d, rest, hescape, hquote⟩ := exists_head_escape c
      rw [List.flatMap_cons, List.append_assoc]
      rw [hescape, List.cons_append] at hread ⊢
      rw [readChars]
      · simp only [hread, ih (Nat.lt_of_succ_lt_succ h), Option.bind_eq_bind, Option.bind_some]
      · rintro t' heq
        exact hquote (List.cons.inj heq).1

theorem length_le_flatMap_escape (s : Text) : s.length ≤ (s.flatMap escape).length := by
  induction s with
  | nil => exact Nat.le_refl _
  | cons c s ih =>
    obtain ⟨d, rest, hescape, -⟩ := exists_head_escape c
    rw [List.flatMap_cons, hescape, List.length_cons, List.length_append, List.length_cons]
    omega

/-- A string is read back from behind its opening quote. -/
theorem readString_quote (s : String) (t : Text) :
    readString (s.toList.flatMap escape ++ '"' :: t) = some (s, t) := by
  have hlength := length_le_flatMap_escape s.toList
  have hcount : s.toList.length < (s.toList.flatMap escape ++ '"' :: t).length := by
    rw [List.length_append, List.length_cons]
    omega
  rw [readString, readChars_escape s.toList t hcount]
  simp

theorem toList_quote (s : String) (t : Text) :
    (quote s).toList ++ t = '"' :: (s.toList.flatMap escape ++ '"' :: t) := by
  simp [quote]

/-! ### Numbers -/

/-- The text does not go on with a digit. -/
def EndsDigits (t : Text) : Prop := ∀ c, t.head? = some c → c.isDigit = false

/-- The text does not go on with a number. -/
def EndsNumber (t : Text) : Prop :=
  ∀ c, t.head? = some c → c.isDigit = false ∧ c ≠ '.' ∧ c ≠ 'e' ∧ c ≠ 'E'

theorem EndsNumber.endsDigits {t : Text} (h : EndsNumber t) : EndsDigits t :=
  fun c hc => (h c hc).1

/-- The value is read from the text, wherever it stands. -/
def Reads {α : Type} (read : Reader α) (text : Text) (a : α) : Prop :=
  ∀ t, EndsNumber t → read (text ++ t) = some (a, t)

theorem readDigits_append {digits t : Text} (hne : digits ≠ [])
    (hdigits : ∀ c ∈ digits, c.isDigit = true) (ht : EndsDigits t) :
    readDigits (digits ++ t) = some (digits, t) := by
  obtain ⟨htake, hdrop⟩ := Text.takeWhile_append_of_head hdigits ht
  unfold readDigits
  rw [htake, hdrop]
  cases digits with
  | nil => exact absurd rfl hne
  | cons d digits => rfl

/-- A number is written without leading zeros. -/
theorem toDigits_head {n : Nat} (h : (Nat.toDigits 10 n).head? = some '0') : n = 0 := by
  induction n using Nat.strongRecOn with
  | ind n ih =>
    rcases Nat.lt_or_ge n 10 with hlt | hge
    · have hdigit : ∀ d < 10, Nat.digitChar d = '0' → d = 0 := by decide
      rw [Nat.toDigits_of_lt_base hlt] at h
      exact hdigit n hlt (Option.some.inj h)
    · rw [Nat.toDigits_of_base_le (by decide) hge, List.head?_append, Option.or_eq_some_iff] at h
      rcases h with hfirst | ⟨hnone, -⟩
      · have := ih (n / 10) (by omega) hfirst
        omega
      · exact absurd (List.head?_eq_none_iff.1 hnone) Nat.toDigits_ne_nil

theorem readDigits_toDigits (n : Nat) {t : Text} (ht : EndsDigits t) :
    readDigits (Nat.toDigits 10 n ++ t) = some (Nat.toDigits 10 n, t) :=
  readDigits_append Nat.toDigits_ne_nil
    (fun _ => Nat.isDigit_of_mem_toDigits (by decide) (by decide)) ht

theorem readWhole_toDigits (n : Nat) {t : Text} (ht : EndsDigits t) :
    readWhole (Nat.toDigits 10 n ++ t) = some (Nat.toDigits 10 n, t) := by
  have hzeros : ¬ ((Nat.toDigits 10 n).head? = some '0' ∧ Nat.toDigits 10 n ≠ ['0']) := by
    rintro ⟨hhead, hne⟩
    rw [toDigits_head hhead] at hne
    exact hne (Nat.toDigits_zero 10)
  simp only [readWhole, readDigits_toDigits n ht, Option.bind_eq_bind, Option.bind_some,
    if_neg hzeros]

theorem ofDigits_toDigits (n : Nat) : ofDigits (Nat.toDigits 10 n) = n :=
  Nat.ofDigitChars_ten_toDigits

theorem exists_toDigits (n : Nat) :
    ∃ d digits, Nat.toDigits 10 n = d :: digits ∧ d.isDigit = true := by
  obtain ⟨d, digits, hdigits⟩ :=
    List.exists_cons_of_ne_nil (Nat.toDigits_ne_nil (n := n) (b := 10))
  refine ⟨d, digits, hdigits, ?_⟩
  exact Nat.isDigit_of_mem_toDigits (b := 10) (n := n) (by decide) (by decide) (by simp [hdigits])

theorem toList_ofNat (n : Nat) : (toString (Int.ofNat n)).toList = Nat.toDigits 10 n :=
  Nat.toList_repr

theorem toList_negSucc (n : Nat) :
    (toString (Int.negSucc n)).toList = '-' :: Nat.toDigits 10 (n + 1) := by
  change ("-" ++ (n + 1).repr).toList = _
  rw [String.toList_append, Nat.toList_repr]
  rfl

/-- A number starts with its sign or with a digit. -/
theorem exists_head_toString (n : Int) :
    ∃ c s, (toString n).toList = c :: s ∧ (c = '-' ∨ c.isDigit = true) := by
  cases n with
  | ofNat m =>
    obtain ⟨d, digits, hdigits, hdigit⟩ := exists_toDigits m
    exact ⟨d, digits, (toList_ofNat m).trans hdigits, .inr hdigit⟩
  | negSucc m => exact ⟨'-', _, toList_negSucc m, .inl rfl⟩

/-- A number is read up to where its digits end, and then its fraction and its exponent. -/
theorem exists_readNumber (n : Int) :
    ∃ (sign : Int) (digits : Text), sign * ofDigits digits = n ∧
      ∀ t, EndsDigits t →
        readNumber ((toString n).toList ++ t) = (do
          let (fraction, t) ← readFraction t
          let (exponent, t) ← readExponent t
          some (number sign digits fraction exponent, t)) := by
  cases n with
  | ofNat m =>
    refine ⟨1, Nat.toDigits 10 m, by rw [ofDigits_toDigits]; simp, fun t ht => ?_⟩
    have hwhole := readWhole_toDigits m ht
    obtain ⟨d, digits, hdigits, hdigit⟩ := exists_toDigits m
    rw [hdigits, List.cons_append] at hwhole
    rw [toList_ofNat, hdigits, List.cons_append, readNumber, readUnsigned, hwhole]
    · rfl
    · rintro t' heq
      rw [(List.cons.inj heq).1] at hdigit
      exact absurd hdigit (by decide)
  | negSucc m =>
    refine ⟨-1, Nat.toDigits 10 (m + 1), by rw [ofDigits_toDigits]; omega, fun t ht => ?_⟩
    rw [toList_negSucc, List.cons_append, readNumber, readUnsigned, readWhole_toDigits (m + 1) ht]
    rfl

theorem reads_int (n : Int) : Reads readNumber (toString n).toList (.int n) := by
  intro t ht
  obtain ⟨sign, digits, rfl, hread⟩ := exists_readNumber n
  have hfraction : readFraction t = some ([], t) := by
    unfold readFraction
    split
    · exact absurd rfl (ht '.' rfl).2.1
    · rfl
  have hexponent : readExponent t = some (none, t) := by
    unfold readExponent
    split
    · next c t =>
      obtain ⟨-, -, hlower, hupper⟩ := ht c rfl
      rw [if_neg (by simp [hlower, hupper])]
    · rfl
  rw [hread t ht.endsDigits, hfraction]
  simp only [hexponent, Option.bind_eq_bind, Option.bind_some]
  rfl

theorem reads_real (mantissa : Int) (exponent : Nat) :
    Reads readNumber ((toString mantissa).toList ++ 'e' :: '-' :: (toString exponent).toList)
      (.real mantissa exponent) := by
  intro t ht
  obtain ⟨sign, digits, rfl, hread⟩ := exists_readNumber mantissa
  have hexponent : readExponent ('e' :: '-' :: ((toString exponent).toList ++ t)) =
      some (some (-exponent : Int), t) := by
    rw [Nat.toString_eq_repr, Nat.toList_repr]
    simp [readExponent, readDigits_toDigits exponent ht.endsDigits, ofDigits_toDigits]
  rw [List.append_assoc, List.cons_append, List.cons_append, hread _ (by rintro c ⟨⟩; rfl),
    readFraction]
  · simp only [hexponent, Option.bind_eq_bind, Option.bind_some]
    simp [number]
  · rintro t' ⟨⟩

end GraphTex.Json
