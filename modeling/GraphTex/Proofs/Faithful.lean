import GraphTex.Proofs.Compiling
import GraphTex.Proofs.Reading
import GraphTex.Proofs.Slices
import GraphTex.Proofs.Words

/-!
# Trees are faithful to the source

Every node of a tree that parsing gives says where it was written, and it was written there: its
spans cut its command and its literals out of the source, they follow each other inside the span of
the node, and they leave out blanks only (`Node.Faithful`). This holds of every source, also of one
with faults (`parse_faithful`). Arguments that were dropped are the one thing that a tree may miss,
and it says so.
-/

namespace GraphTex

open Paren

/-- The span cuts the word out of the source. The word does not start with a parenthesis. -/
structure WrittenAt (source : Text) (span : Span) (word : Text) : Prop where
  slice : source.slice? span = some word
  ne_nil : word ≠ []
  not_open : word.head? ≠ some '('

/-- The span of an argument as it is written, an expression with its parentheses. -/
def Argument.outerSpan : Argument → Span
  | .literal _ span => span
  | .expr node => node.span.widen

/-- The spans of the command and of the arguments. -/
def Node.parts (n : Node) : List Span := n.commandSpan :: n.args.map Argument.outerSpan

/-- The node is written in the source as its spans say. -/
structure Node.Faithful (source : Text) (n : Node) : Prop where
  /-- The node is written between a pair of parentheses. -/
  enclosed : ∃ content, source.slice? n.span = some content ∧
    source.slice? n.span.widen = some ('(' :: (content ++ [')']))
  command : WrittenAt source n.commandSpan n.command
  literals : ∀ text span, .literal text span ∈ n.args → WrittenAt source span text
  /-- No part is empty, and all of them are inside the node. -/
  inside : ∀ p ∈ n.parts, n.span.start ≤ p.start ∧ p.start < p.stop ∧ p.stop ≤ n.span.stop
  ordered : n.parts.Pairwise fun p q => p.stop < q.start
  /-- If no argument was dropped, the characters of the node outside its parts are blanks. -/
  blank : n.droppedArgs = false → ∀ (before : Text) (c : Char) (after : Text),
    source = before ++ c :: after → n.span.Covers before.bytes →
      (∀ p ∈ n.parts, ¬ p.Covers before.bytes) → isBlank c = true

/-! ### Tokens in their text -/

namespace Token

/-- The tokens are words of the text at their places, in order, and leave out only blanks. -/
structure LaidOut (offset : Nat) (text : Text) (ts : List Token) : Prop where
  placed : ∀ t ∈ ts, IsWord t.text ∧
    ∃ before after, text = before ++ (t.text ++ after) ∧ t.start = offset + before.bytes
  ordered : ts.Pairwise fun t u => t.span.stop < u.span.start
  blank : ∀ (before : Text) (c : Char) (after : Text), text = before ++ c :: after →
    (∀ t ∈ ts, ¬ t.span.Covers (offset + before.bytes)) → isBlank c = true

/-- Every token is inside the span of the text. -/
theorem LaidOut.inside {offset : Nat} {text : Text} {ts : List Token}
    (h : LaidOut offset text ts) (t : Token) (ht : t ∈ ts) :
    offset ≤ t.span.start ∧ t.span.start < t.span.stop ∧
      t.span.stop ≤ (Span.ofText offset text).stop := by
  obtain ⟨hword, before, after, rfl, hstart⟩ := h.placed t ht
  have hpos : t.text.bytes ≠ 0 := fun hzero => hword.ne_nil (Text.bytes_eq_zero_iff.1 hzero)
  simp only [span, Span.ofText, Text.bytes_append]
  omega

/-- A word is not at the very start of a text in front of which another word ends. -/
theorem pos_of_endsBefore {w before v after : Text} (hv : IsWord v)
    (hend : EndsBefore w (before ++ (v ++ after))) : 0 < before.bytes := by
  obtain ⟨d, v, rfl, hd⟩ := hv.exists_cons
  cases before with
  | nil =>
    rcases hend with hnil | ⟨-, c, r, hcons, hc⟩
    · simp at hnil
    · obtain ⟨rfl, -⟩ := List.cons.inj hcons
      rw [hd] at hc
      exact absurd hc (by simp)
  | cons c before =>
    have := c.utf8Size_pos
    rw [Text.bytes_cons]
    omega

/-- A gap and a word in front of a text put one token in front of its tokens. -/
theorem LaidOut.cons {offset : Nat} {g w r : Text} {ts : List Token} (hg : IsGap g) (hw : IsWord w)
    (hend : EndsBefore w r) (h : LaidOut (offset + g.bytes + w.bytes) r ts) :
    LaidOut offset (g ++ (w ++ r)) (⟨offset + g.bytes, w⟩ :: ts) := by
  refine ⟨?_, List.pairwise_cons.2 ⟨?_, h.ordered⟩, ?_⟩
  · intro t ht
    rcases List.mem_cons.1 ht with rfl | ht
    · exact ⟨hw, g, r, rfl, rfl⟩
    · obtain ⟨hword, before, after, hr, hstart⟩ := h.placed t ht
      refine ⟨hword, g ++ (w ++ before), after, by simp [hr], ?_⟩
      simp only [hstart, Text.bytes_append]
      omega
  · intro t ht
    obtain ⟨hword, before, after, rfl, hstart⟩ := h.placed t ht
    have hpos := pos_of_endsBefore hword hend
    simp only [span, Span.ofText]
    omega
  · intro before c after htext houtside
    -- The character is in the gap, in the word or behind both.
    by_cases hgap : before.bytes < g.bytes
    · obtain ⟨k, rfl⟩ := Text.exists_append_of_bytes_lt htext hgap
      exact hg c (by simp)
    have hword := houtside _ List.mem_cons_self
    simp only [Span.Covers, span, Span.ofText] at hword
    have hbehind : (g ++ w).bytes ≤ before.bytes := by
      rw [Text.bytes_append]
      omega
    rw [← List.append_assoc] at htext
    obtain ⟨m, rfl, hr⟩ := Text.exists_append_of_bytes_le htext hbehind
    refine h.blank m c after hr fun t ht => ?_
    have ht := houtside t (List.mem_cons_of_mem _ ht)
    rwa [Text.bytes_append, Text.bytes_append, ← Nat.add_assoc, ← Nat.add_assoc] at ht

/-- **The tokens of a text are laid out in it.** -/
theorem laidOut_split (text : Text) (offset : Nat) :
    LaidOut offset text (split offset text).value := by
  induction text using layout_induction generalizing offset with
  | gap g hg =>
    have htokens := tokens_gap hg offset []
    rw [List.append_nil, tokens_nil] at htokens
    rw [htokens]
    refine ⟨by simp, .nil, ?_⟩
    rintro before c after rfl -
    exact hg c (by simp)
  | word g w r hg hw hend ih =>
    rw [tokens_gap hg, tokens_word hw hend]
    exact .cons hg hw hend (ih (offset + g.bytes + w.bytes))

end Token

/-! ### Nodes in the source -/

/-- An argument that is read covers its token. -/
theorem Argument.outerSpan_of_read {limit levels : Nat} {t : Token} {arg : Argument}
    (h : (Argument.read (Node.read limit levels) t).value = some arg) :
    arg.outerSpan = t.span := by
  rcases Argument.read_eq_some h with ⟨-, rfl⟩ | ⟨content, child, htext, hchild, rfl⟩
  · rfl
  · rw [outerSpan, Node.span_of_read hchild, Span.widen, Token.span, htext]
    simp only [Span.ofText, Text.bytes_cons, Text.bytes_append, Text.bytes_nil, utf8Size_open,
      utf8Size_close, Span.mk.injEq]
    omega

section Parts

variable (limit levels : Nat) (ts : List Token)

/-- The arguments that are read cover their tokens, in order. -/
theorem outerSpans_eq_filter :
    (ts.filterMap fun t => (Argument.read (Node.read limit levels) t).value).map
        Argument.outerSpan =
      (ts.filter fun t => (Argument.read (Node.read limit levels) t).value.isSome).map
        Token.span := by
  induction ts with
  | nil => rfl
  | cons t ts ih =>
    cases hread : (Argument.read (Node.read limit levels) t).value with
    | none => simp [hread, ih]
    | some arg => simp [hread, ih, Argument.outerSpan_of_read hread]

theorem outerSpans_sublist :
    ((ts.filterMap fun t => (Argument.read (Node.read limit levels) t).value).map
      Argument.outerSpan).Sublist (ts.map Token.span) := by
  rw [outerSpans_eq_filter]
  exact List.filter_sublist.map Token.span

theorem outerSpans_eq
    (h : (ts.any fun t => (Argument.read (Node.read limit levels) t).value.isNone) = false) :
    (ts.filterMap fun t => (Argument.read (Node.read limit levels) t).value).map
      Argument.outerSpan = ts.map Token.span := by
  rw [outerSpans_eq_filter, List.filter_eq_self.2]
  intro t ht
  have hread := List.any_eq_false.1 h t ht
  simpa [Option.isSome_iff_ne_none] using hread

end Parts

/-- The source has the text between parentheses, behind the given number of bytes. -/
def EnclosedAt (source text : Text) (offset : Nat) : Prop :=
  ∃ before after : Text,
    source = before ++ '(' :: (text ++ ')' :: after) ∧ offset = before.bytes + 1

namespace EnclosedAt

variable {source text : Text} {offset : Nat}

theorem slice (h : EnclosedAt source text offset) {before piece after : Text}
    (htext : text = before ++ (piece ++ after)) :
    source.slice? (.ofText (offset + before.bytes) piece) = some piece := by
  obtain ⟨front, back, rfl, rfl⟩ := h
  refine Text.slice?_eq_some_iff.2 ⟨front ++ '(' :: before, after ++ ')' :: back, ?_, ?_⟩
  · simp [htext]
  · rw [Text.bytes_append, Text.bytes_cons, utf8Size_open, Nat.add_assoc]

theorem slice_widen (h : EnclosedAt source text offset) :
    source.slice? (Span.ofText offset text).widen = some ('(' :: (text ++ [')'])) := by
  obtain ⟨front, back, rfl, rfl⟩ := h
  refine Text.slice?_eq_some_iff.2 ⟨front, back, by simp, ?_⟩
  simp only [Span.widen, Span.ofText, Text.bytes_cons, Text.bytes_append, Text.bytes_nil,
    utf8Size_open, utf8Size_close, Span.mk.injEq]
  omega

/-- Parentheses inside the text enclose a text of their own. -/
theorem nested (h : EnclosedAt source text offset) {before content after : Text}
    (htext : text = before ++ ('(' :: (content ++ [')']) ++ after)) :
    EnclosedAt source content (offset + before.bytes + 1) := by
  obtain ⟨front, back, rfl, rfl⟩ := h
  refine ⟨front ++ '(' :: before, after ++ ')' :: back, by simp [htext], ?_⟩
  rw [Text.bytes_append, Text.bytes_cons, utf8Size_open, Nat.add_assoc front.bytes]

/-- A character of the source inside the span of the text is a character of the text. -/
theorem exists_of_covers (h : EnclosedAt source text offset) {before after : Text} {c : Char}
    (hsource : source = before ++ c :: after)
    (hcovers : (Span.ofText offset text).Covers before.bytes) :
    ∃ a b : Text, text = a ++ c :: b ∧ before.bytes = offset + a.bytes := by
  obtain ⟨front, back, rfl, rfl⟩ := h
  obtain ⟨hstart, hstop⟩ := hcovers
  simp only [Span.ofText] at hstart hstop
  have hcut : (front ++ ['(']) ++ (text ++ ')' :: back) = before ++ c :: after := by
    rw [← hsource]
    simp
  obtain ⟨a, rfl, ha⟩ := Text.exists_append_of_bytes_le hcut (by
    simpa [utf8Size_open] using hstart)
  simp only [Text.bytes_append, Text.bytes_cons, Text.bytes_nil, utf8Size_open] at hstop
  obtain ⟨b, rfl⟩ := Text.exists_append_of_bytes_lt ha (by omega)
  exact ⟨a, b, rfl, by simp [utf8Size_open, Nat.add_assoc]⟩

end EnclosedAt

/-- A token of an enclosed text is written where its span says. -/
theorem Token.slice_of_mem_split {source text : Text} {offset : Nat}
    (hsource : EnclosedAt source text offset) {t : Token}
    (ht : t ∈ (Token.split offset text).value) : source.slice? t.span = some t.text := by
  obtain ⟨-, before, after, htext, hstart⟩ := (Token.laidOut_split text offset).placed t ht
  rw [Token.span, hstart]
  exact hsource.slice htext

/-- A token in parentheses encloses its content. -/
theorem Token.enclosedAt_of_mem_split {source text : Text} {offset : Nat}
    (hsource : EnclosedAt source text offset) {t : Token}
    (ht : t ∈ (Token.split offset text).value) {content : Text}
    (htext : t.text = '(' :: (content ++ [')'])) : EnclosedAt source content (t.start + 1) := by
  obtain ⟨-, before, after, hplace, hstart⟩ := (Token.laidOut_split text offset).placed t ht
  rw [htext] at hplace
  rw [hstart]
  exact hsource.nested hplace

/-- A token of an enclosed text that is not an expression is written where its span says. -/
theorem Token.writtenAt {source text : Text} {offset : Nat}
    (hsource : EnclosedAt source text offset) {t : Token}
    (ht : t ∈ (Token.split offset text).value) (hopen : t.isParenthesized = false) :
    WrittenAt source t.span t.text :=
  ⟨Token.slice_of_mem_split hsource ht, ((Token.laidOut_split text offset).placed t ht).1.ne_nil,
    Token.not_isParenthesized_iff.1 hopen⟩

/-- The node that is read from an enclosed text is faithful. -/
theorem Node.faithful_of_read {limit levels offset : Nat} {source text : Text} {n : Node}
    (hsource : EnclosedAt source text offset)
    (h : (Node.read limit (levels + 1) offset text).value = some n) : n.Faithful source := by
  obtain ⟨head, rest, htokens, hopen, rfl⟩ := Node.read_eq_some h
  have hlaid := Token.laidOut_split text offset
  have hwritten := fun t => Token.writtenAt hsource (t := t)
  rw [htokens] at hlaid hwritten
  -- The parts are the spans of the tokens, without those of dropped arguments.
  have hsublist := (outerSpans_sublist limit levels rest).cons_cons head.span
  rw [← List.map_cons] at hsublist
  refine ⟨⟨text, ?_, hsource.slice_widen⟩, hwritten head List.mem_cons_self hopen, ?_, ?_, ?_, ?_⟩
  · simpa using hsource.slice (show text = [] ++ (text ++ []) by simp)
  · intro word span hword
    obtain ⟨t, ht, hread⟩ := List.mem_filterMap.1 hword
    rcases Argument.read_eq_some hread with ⟨hliteral, heq⟩ | ⟨content, child, -, -, heq⟩
    · cases heq
      exact hwritten t (List.mem_cons_of_mem head ht) hliteral
    · cases heq
  · intro p hp
    obtain ⟨t, ht, rfl⟩ := List.mem_map.1 (hsublist.subset hp)
    exact hlaid.inside t ht
  · exact (List.pairwise_map.2 hlaid.ordered).sublist hsublist
  · intro hwhole before c after hcut hcovers houtside
    obtain ⟨a, b, htext, hbytes⟩ := hsource.exists_of_covers hcut hcovers
    rw [hbytes, Node.parts, outerSpans_eq limit levels rest hwhole] at houtside
    exact hlaid.blank a c b htext fun t ht => houtside t.span (List.mem_map_of_mem ht)

/-- **Reading is faithful at every depth.** -/
theorem Node.faithful_of_mem_nodes {limit levels offset : Nat} {source text : Text} {n : Node}
    (hsource : EnclosedAt source text offset)
    (h : (Node.read limit levels offset text).value = some n) :
    ∀ m ∈ n.nodes, m.Faithful source := by
  induction levels generalizing offset text n with
  | zero => exact absurd h (by simp [Node.read_zero])
  | succ levels ih =>
    intro m hm
    rcases Node.mem_nodes.1 hm with rfl | ⟨child, hchild, hmem⟩
    · exact Node.faithful_of_read hsource h
    · obtain ⟨head, rest, htokens, -, rfl⟩ := Node.read_eq_some h
      obtain ⟨t, ht, hread⟩ := List.mem_filterMap.1 hchild
      rcases Argument.read_eq_some hread with ⟨-, hliteral⟩ | ⟨content, _, htext, hvalue, hexpr⟩
      · cases hliteral
      · cases hexpr
        -- The child is read from inside a token, which stands in the text that encloses it.
        have hnested := Token.enclosedAt_of_mem_split hsource (by simp [htokens, ht]) htext
        exact ih hnested hvalue m hmem

/-! ### Groups in the source -/

namespace Group

/-- The text, which stands at `offset`, has the group with its parentheses at its place. -/
def PlacedIn (t : Text) (offset : Nat) (g : Group) : Prop :=
  ∃ before after : Text,
    t = before ++ '(' :: (g.content ++ ')' :: after) ∧ g.start = offset + before.bytes

theorem PlacedIn.cons {t : Text} {offset : Nat} {c : Char} {g : Group}
    (h : PlacedIn t (offset + c.utf8Size) g) : PlacedIn (c :: t) offset g := by
  obtain ⟨before, after, rfl, hstart⟩ := h
  exact ⟨c :: before, after, rfl, by rw [hstart, Text.bytes_cons, Nat.add_assoc]⟩

/-- The scan outside and the scan inside a group find groups where they are. -/
theorem outside_inside_placed (t : Text) :
    (∀ offset, ∀ g ∈ outside offset t, PlacedIn t offset g) ∧
    ∀ d offset content later, inside d offset t = some (content, later) →
      (∃ after, t = content ++ ')' :: after) ∧ ∀ g ∈ later, PlacedIn t offset g := by
  induction t with
  | nil => exact ⟨by simp [outside], by simp [inside]⟩
  | cons c t ih =>
    obtain ⟨ihout, ihin⟩ := ih
    constructor
    · intro offset g hg
      rw [outside] at hg
      split_ifs at hg with hopen
      · subst hopen
        cases hin : inside 0 (offset + 1) t with
        | none => simp [hin] at hg
        | some found =>
          obtain ⟨⟨after, hcontent⟩, hlater⟩ := ihin 0 (offset + 1) found.1 found.2 hin
          rw [hin] at hg
          rcases List.mem_cons.1 hg with rfl | hg
          · exact ⟨[], after, by rw [hcontent]; rfl, rfl⟩
          · exact (hlater g hg).cons
      · exact (ihout _ g hg).cons
    · intro d offset content later hin
      rw [inside] at hin
      split_ifs at hin with hclose
      · obtain ⟨-, rfl⟩ := hclose
        cases hin
        exact ⟨⟨t, rfl⟩, fun g hg => (ihout _ g hg).cons⟩
      · obtain ⟨⟨rest, behind⟩, hrest, heq⟩ := Option.map_eq_some_iff.1 hin
        cases heq
        obtain ⟨⟨after, rfl⟩, hbehind⟩ := ihin _ _ _ _ hrest
        exact ⟨⟨after, rfl⟩, fun g hg => (hbehind g hg).cons⟩

theorem enclosedAt_of_mem_find {source : Text} {g : Group} (h : g ∈ (find source).value) :
    EnclosedAt source g.content g.contentSpan.start := by
  obtain ⟨before, after, hsource, hstart⟩ := (outside_inside_placed source).1 0 g h
  refine ⟨before, after, hsource, ?_⟩
  rw [contentSpan, Span.ofText, hstart, Nat.zero_add]

end Group

/-- **Trees are faithful to the source.** Every node at every depth of the trees of a source, with
faults or without, is written in the source as its spans say. -/
theorem parse_faithful (c : Compiler) (source : Text) :
    ∀ n ∈ (c.parse source).value, ∀ m ∈ n.nodes, m.Faithful source := by
  intro n hn
  rw [Compiler.value_parse] at hn
  obtain ⟨g, hg, hread⟩ := List.mem_filterMap.1 hn
  exact Node.faithful_of_mem_nodes (Group.enclosedAt_of_mem_find hg) hread

/-- Behind a stray parenthesis, a node with an argument that is dropped, and below it a whole one
among wide characters. -/
theorem parse_faithful_dropped :
    ∃ n ∈ (Compiler.parse { maxDepth := 2 } "ü) (add é\u3000(neg π) ())".toList).value,
      n.droppedArgs = true ∧ n.Faithful "ü) (add é\u3000(neg π) ())".toList ∧
        ∃ m ∈ n.nodes, m.droppedArgs = false ∧ m.span = ⟨15, 21⟩ ∧
          m.Faithful "ü) (add é\u3000(neg π) ())".toList := by
  have hfaithful := parse_faithful { maxDepth := 2 } "ü) (add é\u3000(neg π) ())".toList
  obtain ⟨n, hn, hdropped, m, hm, hwhole, hspan⟩ :
      ∃ n ∈ (Compiler.parse { maxDepth := 2 } "ü) (add é\u3000(neg π) ())".toList).value,
        n.droppedArgs = true ∧ ∃ m ∈ n.nodes, m.droppedArgs = false ∧ m.span = ⟨15, 21⟩ := by
    decide +kernel
  exact ⟨n, hn, hdropped, hfaithful n hn n (Node.mem_nodes.2 (.inl rfl)), m, hm, hwhole, hspan,
    hfaithful n hn m hm⟩

end GraphTex
