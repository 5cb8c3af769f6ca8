import GraphTex.Proofs.Compiling
import GraphTex.Proofs.Grammar
import GraphTex.Proofs.Reading

/-!
# The parser accepts exactly the grammar

A source is parsed without report exactly if it has a derivation whose groups nest at most as deep
as allowed, and then the trees are those of the derivation (`parse_iff_derivation`). The derivation
of a group is followed down by the number of levels left: a text with a derivation is read without
report (`read_form`), and a text that is read without report has one (`exists_form`).
-/

namespace GraphTex.Grammar

open Paren

/-! ### Derivations are accepted -/

/-- The tokens of items that stand at an offset. -/
def Items.tokens (offset : Nat) : Items → List Token
  | .done _ => []
  | .next gap _ item rest =>
    ⟨offset + gap.text.bytes, item.text⟩ ::
      rest.tokens (offset + gap.text.bytes + item.text.bytes)

theorem Items.split_text : ∀ (items : Items) (offset : Nat),
    (Token.split offset items.text).value = items.tokens offset
  | .done trail, offset => by
    rw [Items.text, ← List.append_nil trail.text, Token.tokens_gap trail.isGap, Token.tokens_nil,
      Items.tokens]
  | .next gap _ item rest, offset => by
    rw [Items.text, Token.tokens_gap gap.isGap,
      Token.tokens_word item.isWord (rest.startsBlank.endsBefore item.balanced),
      Items.split_text rest, Items.tokens]

theorem Form.split_content (lead : Blanks) (command : Atom) (items : Items) (offset : Nat) :
    (Token.split offset (Form.mk lead command items).content).value =
      ⟨offset + lead.text.bytes, command.text⟩ ::
        items.tokens (offset + lead.text.bytes + command.text.bytes) := by
  rw [Form.content, Token.tokens_gap lead.isGap,
    Token.tokens_word command.isWord (items.startsBlank.endsBefore command.balanced),
    Items.split_text]

theorem Atom.not_isParenthesized (a : Atom) (start : Nat) :
    Token.isParenthesized ⟨start, a.text⟩ = false := Token.not_isParenthesized_iff.2 a.head_ne

section Completeness

variable {descend : Nat → Text → Logged (Option Node)} {n : Nat}

/-- Contents of groups that nest at most `n` deep are read as their trees, without report. -/
def ReadsForms (descend : Nat → Text → Logged (Option Node)) (n : Nat) : Prop :=
  ∀ form : Form, form.height ≤ n → ∀ offset, ∃ node,
    descend offset form.content = ⟨some node, []⟩ ∧ node.eraseSpans = form.tree

theorem read_item (hdescend : ReadsForms descend n) (item : Item) (h : item.height ≤ n)
    (start : Nat) :
    ∃ arg, Argument.read descend ⟨start, item.text⟩ = ⟨some arg, []⟩ ∧
      arg.eraseSpans = item.tree := by
  cases item with
  | atom atom =>
    rw [Item.text, Argument.read_literal (atom.not_isParenthesized start)]
    exact ⟨_, rfl, by rw [Argument.eraseSpans, Argument.mapSpans_literal, Item.tree]⟩
  | group form =>
    rw [Item.height] at h
    obtain ⟨node, hread, htree⟩ := hdescend form h (start + 1)
    have htext : Token.text ⟨start, (Item.group form).text⟩ = '(' :: (form.content ++ [')']) := by
      rw [Item.text]
    refine ⟨.expr node, ?_, ?_⟩
    · rw [Argument.read_expr htext, hread]
      rfl
    · rw [Argument.eraseSpans, Argument.mapSpans_expr, Item.tree, ← htree, Node.eraseSpans]

theorem read_items (hdescend : ReadsForms descend n) : ∀ (items : Items), items.height ≤ n →
    ∀ offset,
      ((items.tokens offset).flatMap fun t => (Argument.read descend t).reports) = [] ∧
      ((items.tokens offset).any fun t => (Argument.read descend t).value.isNone) = false ∧
      ((items.tokens offset).filterMap fun t => (Argument.read descend t).value).map
        Argument.eraseSpans = items.trees
  | .done trail, _, offset => by
    rw [Items.tokens, Items.trees]
    exact ⟨rfl, rfl, rfl⟩
  | .next gap _ item rest, h, offset => by
    rw [Items.height] at h
    obtain ⟨arg, hread, htree⟩ :=
      read_item hdescend item (by omega) (offset + gap.text.bytes)
    obtain ⟨hreports, hdropped, htrees⟩ :=
      read_items hdescend rest (by omega) (offset + gap.text.bytes + item.text.bytes)
    rw [Items.tokens, Items.trees, ← htree, ← htrees]
    simp [hread, hreports, hdropped]

end Completeness

/-- **The content of a group is read as its tree, without report.** -/
theorem read_form (limit levels : Nat) : ReadsForms (Node.read limit levels) levels := by
  induction levels with
  | zero =>
    intro form h
    cases form with
    | mk lead command items =>
      rw [Form.height] at h
      omega
  | succ levels ih =>
    intro form h offset
    -- A form nests one level deeper than its items, which are read with the levels that are left.
    have hbalanced := (Token.reports_split offset form.content).2 form.balanced
    cases form with
    | mk lead command items =>
      rw [Form.height] at h
      obtain ⟨hreports, hdropped, htrees⟩ := read_items ih items (by omega)
        (offset + lead.text.bytes + command.text.bytes)
      rw [Node.read_command (Form.split_content lead command items offset)
        (command.not_isParenthesized _), hbalanced, hreports, hdropped]
      refine ⟨_, rfl, ?_⟩
      rw [Node.eraseSpans, Node.mapSpans_eq, Form.tree, ← htrees]
      rfl

/-! ### What is accepted has a derivation -/

theorem EndsBefore.startsBlank {w t : Text} (h : EndsBefore w t) : StartsBlank t := h.imp id (·.2)

/-- A word at the start of balanced text is balanced, and so is the text behind it. -/
theorem EndsBefore.balanced {w t : Text} (h : EndsBefore w t) (hbalanced : Balanced (w ++ t)) :
    Balanced w ∧ Balanced t := by
  rcases h with rfl | ⟨hdepth, -⟩
  · exact ⟨by rwa [List.append_nil] at hbalanced, .nil⟩
  · exact hbalanced.of_append hdepth

section Soundness

variable {descend : Nat → Text → Logged (Option Node)} {n : Nat}

/-- Texts that are read without report are contents of groups that nest at most `n` deep. -/
def HasForms (descend : Nat → Text → Logged (Option Node)) (n : Nat) : Prop :=
  ∀ offset text, (descend offset text).reports = [] →
    ∃ form : Form, form.content = text ∧ form.height ≤ n

theorem exists_item (hdescend : HasForms descend n) {t : Token} (hword : IsWord t.text)
    (hbalanced : Balanced t.text) (h : (Argument.read descend t).reports = []) :
    ∃ item : Item, item.text = t.text ∧ item.height ≤ n := by
  rcases t.shape with hliteral | ⟨hopen, hcontent⟩ | ⟨content, htext⟩
  · have hhead := Token.not_isParenthesized_iff.1 hliteral
    refine ⟨.atom (.ofWord t.text hword hbalanced hhead), ?_, ?_⟩
    · rw [Item.text, Atom.ofWord]
    · rw [Item.height]
      omega
  · rw [Argument.read_unclosed hopen hcontent] at h
    exact absurd h (by simp)
  · rw [Argument.read_expr htext] at h
    obtain ⟨form, rfl, hheight⟩ := hdescend _ _ h
    exact ⟨.group form, by rw [Item.text, htext], by rwa [Item.height]⟩

theorem exists_items (hdescend : HasForms descend n) (text : Text) : ∀ offset,
    StartsBlank text → Balanced text →
    (∀ t ∈ (Token.split offset text).value, (Argument.read descend t).reports = []) →
    ∃ items : Items, items.text = text ∧ items.height ≤ n := by
  induction text using layout_induction with
  | gap g hg =>
    intro offset _ _ _
    exact ⟨.done ⟨g, hg⟩, by rw [Items.text], by rw [Items.height]; omega⟩
  | word g w r hg hword hend ih =>
    intro offset hstart hbalanced hread
    rw [Token.tokens_gap hg, Token.tokens_word hword hend] at hread
    obtain ⟨hw, hr⟩ := EndsBefore.balanced hend
      (hbalanced.of_append hg.balanced.depth_eq_zero).2
    obtain ⟨item, hitem, hitemHeight⟩ :=
      exists_item hdescend hword hw (hread _ List.mem_cons_self)
    obtain ⟨items, hitems, hitemsHeight⟩ := ih _ (EndsBefore.startsBlank hend) hr
      fun t ht => hread t (List.mem_cons_of_mem _ ht)
    -- the blank in front keeps the item apart from what it follows
    have hgap : g ≠ [] := by
      rintro rfl
      obtain ⟨c, b, hcons, hc⟩ := hword.exists_cons
      rcases hstart with hnil | ⟨c', b', hcons', hc'⟩
      · simp [hcons] at hnil
      · rw [hcons, List.nil_append, List.cons_append] at hcons'
        obtain ⟨rfl, -⟩ := List.cons.inj hcons'
        simp [hc] at hc'
    refine ⟨.next ⟨g, hg⟩ hgap item items, ?_, ?_⟩
    · rw [Items.text, hitem, hitems]
    · rw [Items.height]
      exact max_le hitemHeight hitemsHeight

end Soundness

/-- **A text that is read without report is the content of a group.** -/
theorem exists_form (limit levels : Nat) : HasForms (Node.read limit levels) levels := by
  induction levels with
  | zero =>
    intro offset text h
    rw [Node.read_zero] at h
    exact absurd h (by simp)
  | succ levels ih =>
    intro offset text h
    obtain ⟨head, rest, htokens, hopen, hsplit, hread⟩ := Node.exists_command h
    have hbalanced := (Token.reports_split offset text).1 hsplit
    rcases exists_cut text with hgap | ⟨g, w, r, rfl, hg, hword, hend⟩
    · rw [← List.append_nil text, Token.tokens_gap hgap, Token.tokens_nil] at htokens
      exact absurd htokens (by simp)
    · rw [Token.tokens_gap hg, Token.tokens_word hword hend] at htokens
      obtain ⟨rfl, rfl⟩ := List.cons.inj htokens
      obtain ⟨hw, hr⟩ := EndsBefore.balanced hend
        (hbalanced.of_append hg.balanced.depth_eq_zero).2
      have hhead := Token.not_isParenthesized_iff.1 hopen
      obtain ⟨items, hitems, hheight⟩ :=
        exists_items ih r _ (EndsBefore.startsBlank hend) hr hread
      refine ⟨.mk ⟨g, hg⟩ (.ofWord w hword hw hhead) items, ?_, ?_⟩
      · rw [Form.content, hitems, Atom.ofWord]
      · rw [Form.height]
        omega

/-! ### Sources -/

theorem Program.balanced (p : Program) : Balanced p.text := by
  induction p with
  | done filler =>
    rw [Program.text]
    exact .of_forall filler.plain
  | group filler form rest ih =>
    rw [Program.text]
    exact (Balanced.of_forall filler.plain).append (.nested form.balanced ih)

section Sources

variable (c : Compiler)

theorem reports_parse_iff (source : Text) :
    (c.parse source).reports = [] ↔
      Balanced source ∧ ∀ g ∈ Group.outside 0 source, (c.readGroup g).reports = [] := by
  rw [c.reports_parse, List.append_eq_nil_iff, Group.reports_find, List.flatMap_eq_nil_iff]
  rfl

/-- The groups of a derivation are read as its trees, without report. -/
theorem read_program (p : Program) (h : p.height ≤ c.maxDepth) (offset : Nat) :
    (∀ g ∈ Group.outside offset p.text, (c.readGroup g).reports = []) ∧
      ((Group.outside offset p.text).filterMap fun g => (c.readGroup g).value).map
        Node.eraseSpans = p.trees := by
  induction p generalizing offset with
  | done filler =>
    rw [Program.text, ← List.append_nil filler.text,
      Group.outside_plain fun c hc => (filler.plain c hc).1, Group.outside, Program.trees]
    exact ⟨fun g hg => absurd hg List.not_mem_nil, rfl⟩
  | group filler form rest ih =>
    rw [Program.height] at h
    rw [Program.text, Group.outside_plain fun c hc => (filler.plain c hc).1,
      Group.outside_group form.balanced, Program.trees]
    obtain ⟨node, hread, htree⟩ := read_form c.maxDepth c.maxDepth form (by omega)
      (offset + filler.text.bytes + 1)
    have hgroup : c.readGroup ⟨offset + filler.text.bytes, form.content⟩ = ⟨some node, []⟩ := hread
    obtain ⟨hreports, htrees⟩ := ih (by omega)
      (offset + filler.text.bytes + 1 + form.content.bytes + 1)
    refine ⟨?_, ?_⟩
    · intro g hg
      rcases List.mem_cons.1 hg with rfl | hg
      · rw [hgroup]
      · exact hreports g hg
    · rw [List.filterMap_cons_some (by rw [hgroup]), List.map_cons, htree, htrees]

/-- A character that is no parenthesis can be put in front of a source. -/
theorem Program.exists_cons {a : Char} (ha : a ≠ '(' ∧ a ≠ ')') (p : Program) :
    ∃ q : Program, q.text = a :: p.text ∧ q.height = p.height := by
  have hcons : ∀ filler : Filler, ∀ b ∈ a :: filler.text, b ≠ '(' ∧ b ≠ ')' := by
    intro filler b hb
    rcases List.mem_cons.1 hb with rfl | hb
    · exact ha
    · exact filler.plain b hb
  cases p with
  | done filler => exact ⟨.done ⟨a :: filler.text, hcons filler⟩, rfl, rfl⟩
  | group filler form rest => exact ⟨.group ⟨a :: filler.text, hcons filler⟩ form rest, rfl, rfl⟩

/-- A balanced source whose groups are read without report has a derivation. -/
theorem exists_program {source : Text} (hsource : Balanced source) (offset : Nat)
    (h : ∀ g ∈ Group.outside offset source, (c.readGroup g).reports = []) :
    ∃ p : Program, p.text = source ∧ p.height ≤ c.maxDepth := by
  induction hsource generalizing offset with
  | nil => exact ⟨.done ⟨[], fun c hc => absurd hc List.not_mem_nil⟩, rfl, Nat.zero_le _⟩
  | @plain a t hopen hclose _ ih =>
    rw [Group.outside, if_neg hopen] at h
    obtain ⟨p, hp, hheight⟩ := ih _ h
    obtain ⟨q, hq, hqheight⟩ := p.exists_cons ⟨hopen, hclose⟩
    exact ⟨q, by rw [hq, hp], by rwa [hqheight]⟩
  | @nested s t hs _ _ iht =>
    rw [Group.outside_group hs] at h
    obtain ⟨form, hform, hformHeight⟩ :=
      exists_form c.maxDepth c.maxDepth (offset + 1) s (h _ List.mem_cons_self)
    obtain ⟨p, hp, hheight⟩ := iht _ fun g hg => h g (List.mem_cons_of_mem _ hg)
    refine ⟨.group ⟨[], fun c hc => absurd hc List.not_mem_nil⟩ form p, ?_, ?_⟩
    · rw [Program.text, hform, hp, List.nil_append]
    · rw [Program.height]
      exact max_le hformHeight hheight

end Sources

/-- **The parser accepts exactly the grammar.** A source is parsed without report if and only if it
has a derivation that nests at most as deep as allowed. A source has at most one derivation, and
the trees of an accepted source are, up to spans, those of its derivation. -/
theorem parse_iff_derivation (c : Compiler) (source : Text) :
    ((c.parse source).reports = [] ↔ ∃ p : Program, p.text = source ∧ p.height ≤ c.maxDepth) ∧
      (∀ p q : Program, p.text = source → q.text = source → p = q) ∧
      ∀ p : Program, p.text = source → p.height ≤ c.maxDepth →
        (c.parse source).value.map Node.eraseSpans = p.trees := by
  refine ⟨⟨?_, ?_⟩, ?_, ?_⟩
  · intro h
    obtain ⟨hbalanced, hread⟩ := (reports_parse_iff c source).1 h
    exact exists_program c hbalanced 0 hread
  · rintro ⟨p, rfl, hheight⟩
    exact (reports_parse_iff c _).2 ⟨p.balanced, (read_program c p hheight 0).1⟩
  · intro p q hp hq
    exact text_injective (hp.trans hq.symm)
  · rintro p rfl hheight
    rw [c.value_parse]
    exact (read_program c p hheight 0).2

/-- Filler, an atom with a blank inside, a wide blank and a group at the deepest level allowed. -/
theorem parse_filler_and_nested_group :
    ∃ p : Program, p.text = "f (add x(a b)\u3000(neg 1)) !".toList ∧ p.height ≤ 2 ∧
      (Compiler.parse { maxDepth := 2 } p.text).value.map Node.eraseSpans = p.trees ∧
      p.trees.map Node.pretty = ["(add x(a b) (neg 1))".toList] := by
  obtain ⟨hiff, -, htrees⟩ := parse_iff_derivation { maxDepth := 2 }
    "f (add x(a b)\u3000(neg 1)) !".toList
  obtain ⟨p, hp, hheight⟩ := hiff.1 (by decide +kernel)
  have hvalue := htrees p hp hheight
  refine ⟨p, hp, hheight, by rw [hp, hvalue], ?_⟩
  rw [← hvalue]
  decide +kernel

end GraphTex.Grammar
