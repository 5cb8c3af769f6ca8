import GraphTex.Proofs.JsonReader

/-!
# JSON texts can be read back

Arrays and objects are written alike, with a part on each line (`partsText`), and read alike, by one
reader of parts between brackets. So they are read back if their parts are (`readParts_partsText`),
and by induction every value is read back from its text, with blanks behind it or not
(`read?_pretty`). In particular, the text that is written for a value determines the value.
-/

namespace GraphTex.Json

/-! ### Arrays and objects -/

section containers

variable {α : Type}

/-- What is written for the parts behind the first one, up to the closing bracket. -/
def moreText (level : Nat) (closing : Char) (line : α → Text) : List α → Text
  | [] => (newline level).toList ++ [closing]
  | part :: parts => ',' :: (line part ++ moreText level closing line parts)

/-- What is written for parts behind an opening bracket. -/
def partsText (level : Nat) (closing : Char) (line : α → Text) : List α → Text
  | [] => [closing]
  | part :: parts => line part ++ moreText level closing line parts

variable (level : Nat) (closing : Char) (line : α → Text)

theorem length_lt_moreText (parts : List α) :
    parts.length < (moreText level closing line parts).length := by
  induction parts with
  | nil => simp [moreText]
  | cons part parts ih =>
    rw [moreText, List.length_cons, List.length_cons, List.length_append]
    omega

theorem length_le_moreText {parts : List α} {part : α} (h : part ∈ parts) :
    (line part).length ≤ (moreText level closing line parts).length := by
  induction parts with
  | nil => exact absurd h List.not_mem_nil
  | cons first parts ih =>
    rw [moreText, List.length_cons, List.length_append]
    rcases List.mem_cons.1 h with rfl | hmem
    · omega
    · have := ih hmem
      omega

theorem length_le_partsText {parts : List α} {part : α} (h : part ∈ parts) :
    (line part).length ≤ (partsText level closing line parts).length := by
  cases parts with
  | nil => exact absurd h List.not_mem_nil
  | cons first parts =>
    rw [partsText, List.length_append]
    rcases List.mem_cons.1 h with rfl | hmem
    · omega
    · have := length_le_moreText level closing line hmem
      omega

theorem endsNumber_moreText (parts : List α) (t : Text) :
    EndsNumber (moreText level closing line parts ++ t) := by
  cases parts with
  | nil =>
    have hline : (newline level).toList = '\n' :: List.replicate (2 * level) ' ' := by
      simp [newline]
    rw [moreText, hline]
    rintro c ⟨⟩
    decide
  | cons part parts =>
    rintro c ⟨⟩
    decide

variable {closing line} {inner : Reader α} {parts : List α}

theorem readMore_moreText (hcomma : closing ≠ ',') (hclosing : isSpacing closing = false)
    (hread : ∀ part ∈ parts, Reads inner (line part) part) {count : Nat}
    (hcount : parts.length < count) (t : Text) :
    readMore closing inner count (moreText level closing line parts ++ t) = some (parts, t) := by
  induction parts generalizing count with
  | nil =>
    cases count with
    | zero => exact absurd hcount (Nat.lt_irrefl 0)
    | succ count =>
      rw [moreText, List.append_assoc, List.singleton_append, readMore, skip_newline,
        skip_cons hclosing]
      exact if_pos rfl
  | cons part parts ih =>
    cases count with
    | zero => exact absurd hcount (Nat.not_lt_zero _)
    | succ count =>
      obtain ⟨hpart, hparts⟩ := List.forall_mem_cons.1 hread
      have hfirst := hpart _ (endsNumber_moreText level closing line parts t)
      have hmore := ih hparts (Nat.lt_of_succ_lt_succ hcount)
      rw [moreText, List.cons_append, List.append_assoc, readMore, skip_cons rfl]
      simp only [if_neg hcomma.symm, if_true, hfirst, hmore, Option.bind_eq_bind, Option.bind_some]

/-- **Parts are read back from between brackets** if each is read back from its line, and nothing
is where the bracket closes. -/
theorem readParts_partsText (hcomma : closing ≠ ',') (hclosing : isSpacing closing = false)
    (hstop : ∀ t, (∀ c s, skip t = c :: s → c = closing) → inner t = none)
    (hread : ∀ part ∈ parts, Reads inner (line part) part) (t : Text) :
    readParts closing inner (partsText level closing line parts ++ t) = some (parts, t) := by
  cases parts with
  | nil =>
    rw [partsText, List.singleton_append, readParts, skip_cons hclosing]
    exact if_pos rfl
  | cons part parts =>
    obtain ⟨hpart, hparts⟩ := List.forall_mem_cons.1 hread
    have hcount : parts.length < (moreText level closing line parts ++ t).length := by
      have := length_lt_moreText level closing line parts
      rw [List.length_append]
      omega
    have hfirst := hpart _ (endsNumber_moreText level closing line parts t)
    have hmore := readMore_moreText level hcomma hclosing hparts hcount t
    -- a part is read, so the text does not stop in front of it
    have hstarts : ¬ ∀ c s,
        skip (line part ++ (moreText level closing line parts ++ t)) = c :: s → c = closing := by
      intro hstops
      rw [hstop _ hstops] at hfirst
      cases hfirst
    rw [partsText, List.append_assoc, readParts]
    cases hskip : skip (line part ++ (moreText level closing line parts ++ t)) with
    | nil => exact absurd (by simp [hskip]) hstarts
    | cons c s =>
      have hne : c ≠ closing := fun heq => hstarts (by simp [hskip, heq])
      simp only [if_neg hne, hfirst, hmore, Option.bind_eq_bind, Option.bind_some]

end containers

/-! ### Values -/

/-- Induction on a value: an array has a property if all its items have it, and an object if the
values of all its members have it. -/
theorem induction {motive : Json → Prop} (null : motive .null) (bool : ∀ b, motive (.bool b))
    (int : ∀ n, motive (.int n)) (real : ∀ mantissa exponent, motive (.real mantissa exponent))
    (str : ∀ s, motive (.str s))
    (arr : ∀ items : List Json, (∀ item ∈ items, motive item) → motive (.arr items))
    (obj : ∀ fields : List (String × Json), (∀ field ∈ fields, motive field.2) →
      motive (.obj fields))
    (j : Json) : motive j := by
  refine @Json.rec motive (fun items => ∀ item ∈ items, motive item)
    (fun fields => ∀ field ∈ fields, motive field.2) (fun field => motive field.2)
    null bool int real str arr obj ?_ ?_ ?_ ?_ ?_ j
  · exact fun item h => absurd h List.not_mem_nil
  · exact fun item items hitem hitems => List.forall_mem_cons.2 ⟨hitem, hitems⟩
  · exact fun field h => absurd h List.not_mem_nil
  · exact fun field fields hfield hfields => List.forall_mem_cons.2 ⟨hfield, hfields⟩
  · exact fun key value hvalue => hvalue

/-- The line of an item of an array. -/
def itemLine (level : Nat) (item : Json) : Text :=
  (newline level).toList ++ (prettyAt level item).toList

/-- The line of a member of an object. -/
def fieldLine (level : Nat) (field : String × Json) : Text :=
  (newline level).toList ++
    ((quote field.1).toList ++ ':' :: ' ' :: (prettyAt level field.2).toList)

theorem toList_prettyItems (level : Nat) (items : List Json) :
    (prettyItems (level + 1) items ++ newline level ++ "]").toList =
      moreText level ']' (itemLine (level + 1)) items := by
  induction items with
  | nil =>
    rw [prettyItems]
    simp [moreText]
  | cons item items ih =>
    rw [prettyItems, moreText, ← ih]
    simp [itemLine]

theorem toList_prettyFields (level : Nat) (fields : List (String × Json)) :
    (prettyFields (level + 1) fields ++ newline level ++ "\x7d").toList =
      moreText level '}' (fieldLine (level + 1)) fields := by
  induction fields with
  | nil =>
    rw [prettyFields]
    simp [moreText]
  | cons field fields ih =>
    rw [prettyFields, moreText, ← ih]
    simp [fieldLine]

theorem toList_arr (level : Nat) (items : List Json) :
    (prettyAt level (.arr items)).toList =
      '[' :: partsText level ']' (itemLine (level + 1)) items := by
  cases items with
  | nil => rw [prettyAt]; rfl
  | cons item items =>
    rw [prettyAt, partsText, ← toList_prettyItems]
    simp [itemLine]

theorem toList_obj (level : Nat) (fields : List (String × Json)) :
    (prettyAt level (.obj fields)).toList =
      '{' :: partsText level '}' (fieldLine (level + 1)) fields := by
  cases fields with
  | nil => rw [prettyAt]; rfl
  | cons field fields =>
    rw [prettyAt, partsText, ← toList_prettyFields]
    simp [fieldLine]

/-- Blanks in front of a value do not matter. -/
theorem readValue_append (fuel : Nat) {gap : Text} (h : ∀ c ∈ gap, isSpacing c = true) (t : Text) :
    readValue fuel (gap ++ t) = readValue fuel t := by
  cases fuel with
  | zero => rw [readValue, readValue]
  | succ fuel => rw [readValue, readValue, skip_append h]

/-- There is no value where an array ends. -/
theorem readValue_stop (fuel : Nat) {t : Text} (h : ∀ c s, skip t = c :: s → c = ']') :
    readValue fuel t = none := by
  cases fuel with
  | zero => rw [readValue]
  | succ fuel =>
    rw [readValue]
    cases hskip : skip t with
    | nil => rfl
    | cons c s =>
      obtain rfl := h c s hskip
      rfl

/-- There is no member where an object ends. -/
theorem readMember_stop (inner : Reader Json) {t : Text} (h : ∀ c s, skip t = c :: s → c = '}') :
    readMember inner t = none := by
  rw [readMember]
  cases hskip : skip t with
  | nil => rfl
  | cons c s =>
    obtain rfl := h c s hskip
    rfl

/-- What starts like a number is read as one. -/
theorem readValue_number (fuel : Nat) {c : Char} (h : c = '-' ∨ c.isDigit = true) (t : Text) :
    readValue (fuel + 1) (c :: t) = readNumber (c :: t) := by
  have hne : ∀ d : Char, d ≠ '-' → d.isDigit = false → c ≠ d := by
    rintro d hminus hd rfl
    rcases h with rfl | hdigit
    · exact hminus rfl
    · exact absurd (hdigit.symm.trans hd) (by decide)
  have hspacing : isSpacing c = false := by simp [isSpacing, hne]
  rw [readValue, skip_cons hspacing]
  split
  case h_7 => rfl
  all_goals
    next heq =>
    exact absurd (List.cons.inj heq).1 (hne _ (by decide) rfl)

theorem reads_number (fuel : Nat) {text : Text} {j : Json} (h : Reads readNumber text j)
    (hstart : ∃ c s, text = c :: s ∧ (c = '-' ∨ c.isDigit = true)) :
    Reads (readValue (fuel + 1)) text j := by
  intro t ht
  obtain ⟨c, s, rfl, hc⟩ := hstart
  rw [List.cons_append, readValue_number fuel hc]
  exact h t ht

/-- An item is read back from its line if it is read back from its text. -/
theorem reads_itemLine {fuel level : Nat} {item : Json}
    (h : Reads (readValue fuel) (prettyAt level item).toList item) :
    Reads (readValue fuel) (itemLine level item) item := by
  intro t ht
  rw [itemLine, List.append_assoc, readValue_append fuel fun _ => isSpacing_of_mem_newline]
  exact h t ht

/-- A member is read back if its value is. -/
theorem reads_fieldLine {fuel level : Nat} {field : String × Json}
    (h : Reads (readValue fuel) (prettyAt level field.2).toList field.2) :
    Reads (readMember (readValue fuel)) (fieldLine level field) field := by
  intro t ht
  obtain ⟨key, value⟩ := field
  have hvalue :
      readValue fuel ([' '] ++ ((prettyAt level value).toList ++ t)) = some (value, t) := by
    rw [readValue_append fuel (by simp [isSpacing])]
    exact h t ht
  rw [fieldLine, readMember, List.append_assoc, List.append_assoc, skip_newline, toList_quote,
    skip_cons rfl]
  simp only [readString_quote, Option.bind_eq_bind, Option.bind_some]
  rw [List.cons_append, skip_cons rfl]
  simp only [List.cons_append, List.nil_append] at hvalue ⊢
  rw [hvalue, Option.map_some]

/-- An array is read back if its items are. -/
theorem reads_arr {fuel level : Nat} {items : List Json}
    (h : ∀ item ∈ items, Reads (readValue fuel) (itemLine (level + 1) item) item) :
    Reads (readValue (fuel + 1)) (prettyAt level (.arr items)).toList (.arr items) := by
  intro t _
  have hparts := readParts_partsText level (by decide) rfl (fun t => readValue_stop fuel) h t
  rw [toList_arr, List.cons_append, readValue, skip_cons rfl]
  simp only [hparts, Option.map_some]

/-- An object is read back if its members are. -/
theorem reads_obj {fuel level : Nat} {fields : List (String × Json)}
    (h : ∀ field ∈ fields,
      Reads (readMember (readValue fuel)) (fieldLine (level + 1) field) field) :
    Reads (readValue (fuel + 1)) (prettyAt level (.obj fields)).toList (.obj fields) := by
  intro t _
  have hparts := readParts_partsText level (by decide) rfl
    (fun t => readMember_stop (readValue fuel)) h t
  rw [toList_obj, List.cons_append, readValue, skip_cons rfl]
  simp only [hparts, Option.map_some]

/-- **Every value is read back from its text**, whatever stands behind it as long as that does not
go on with a number. -/
theorem reads_prettyAt (j : Json) (level : Nat) {fuel : Nat}
    (hfuel : (prettyAt level j).toList.length ≤ fuel) :
    Reads (readValue (fuel + 1)) (prettyAt level j).toList j := by
  induction j using Json.induction generalizing level fuel with
  | null =>
    intro t _
    rw [prettyAt, readValue]
    rfl
  | bool b =>
    intro t _
    rw [prettyAt, readValue]
    cases b <;> rfl
  | int n =>
    rw [prettyAt]
    exact reads_number fuel (reads_int n) (exists_head_toString n)
  | real mantissa exponent =>
    obtain ⟨c, s, hs, hc⟩ := exists_head_toString mantissa
    have htext : (prettyAt level (.real mantissa exponent)).toList =
        (toString mantissa).toList ++ 'e' :: '-' :: (toString exponent).toList := by
      rw [prettyAt, String.toList_append, String.toList_append, List.append_assoc]
      rfl
    rw [htext]
    exact reads_number fuel (reads_real mantissa exponent)
      ⟨c, _, congrArg (· ++ 'e' :: '-' :: (toString exponent).toList) hs, hc⟩
  | str s =>
    intro t _
    rw [prettyAt, toList_quote, readValue, skip_cons rfl]
    simp only [readString_quote, Option.map_some]
  | arr items ih =>
    rw [toList_arr, List.length_cons] at hfuel
    cases fuel with
    | zero => exact absurd hfuel (Nat.not_succ_le_zero _)
    | succ fuel =>
      refine reads_arr fun item hitem => reads_itemLine (ih item hitem (level + 1) ?_)
      have hlength := length_le_partsText level ']' (itemLine (level + 1)) hitem
      rw [itemLine, List.length_append] at hlength
      omega
  | obj fields ih =>
    rw [toList_obj, List.length_cons] at hfuel
    cases fuel with
    | zero => exact absurd hfuel (Nat.not_succ_le_zero _)
    | succ fuel =>
      refine reads_obj fun field hfield => reads_fieldLine (ih field hfield (level + 1) ?_)
      have hlength := length_le_partsText level '}' (fieldLine (level + 1)) hfield
      simp only [fieldLine, List.length_append, List.length_cons] at hlength
      omega

/-- **Every value is read back from its text**, with blanks behind it or not. -/
theorem read?_pretty (j : Json) {gap : String} (h : ∀ c ∈ gap.toList, isSpacing c = true) :
    read? (j.pretty ++ gap) = some j := by
  have hends : EndsNumber gap.toList := by
    intro c hc
    have hspacing := h c (List.mem_of_head? hc)
    simp only [isSpacing, Bool.or_eq_true, beq_iff_eq] at hspacing
    rcases hspacing with ((rfl | rfl) | rfl) | rfl <;> decide
  have hskip : skip gap.toList = [] := by
    rw [← List.append_nil gap.toList, skip_append h]
    rfl
  have hlength : j.pretty.toList.length ≤ (j.pretty ++ gap).toList.length := by
    rw [String.toList_append, List.length_append]
    exact Nat.le_add_right _ _
  have hread := reads_prettyAt j 0 hlength gap.toList hends
  rw [← pretty, ← String.toList_append] at hread
  rw [read?, hread]
  exact if_pos hskip

end GraphTex.Json
