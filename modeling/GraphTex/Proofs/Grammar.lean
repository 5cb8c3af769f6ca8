import GraphTex.Proofs.Groups
import GraphTex.Proofs.Trees
import GraphTex.Proofs.Words
import Mathlib.Data.List.Basic

/-!
# The grammar of sources

A source is filler without parentheses and groups in turn. A group is

* an opening parenthesis and blanks,
* an atom, the command,
* items, each behind at least one blank, where an item is an atom or a group,
* blanks and a closing parenthesis.

An atom is a text that starts with neither a blank nor an opening parenthesis, whose parentheses
match, and which has no blank outside them. Atoms may hold blanks and parentheses, as `x(a b)` does.

Derivations are data whose parts carry their own conditions, so a derivation cannot be built from
anything else. The grammar is unambiguous: a text has at most one derivation (`text_injective`).
-/

namespace GraphTex.Grammar

open Paren

/-- A run of blanks, perhaps empty. -/
@[ext] structure Blanks where
  text : Text
  isGap : IsGap text

/-- A text that is one item of a group by itself. -/
@[ext] structure Atom where
  text : Text
  ne_nil : text ≠ []
  head_ne : text.head? ≠ some '('
  balanced : Balanced text
  /-- A character behind balanced text is outside the parentheses. The first one is. -/
  unbroken : ∀ s c r, text = s ++ c :: r → Balanced s → isBlank c = false

/-- Text without parentheses. -/
@[ext] structure Filler where
  text : Text
  plain : ∀ c ∈ text, c ≠ '(' ∧ c ≠ ')'

mutual

/-- What stands between the parentheses of a group. -/
inductive Form where
  | mk (lead : Blanks) (command : Atom) (items : Items)

/-- An item of a group. -/
inductive Item where
  | atom (atom : Atom)
  | group (form : Form)

/-- The items of a group, up to its closing parenthesis. -/
inductive Items where
  | done (trail : Blanks)
  | next (gap : Blanks) (hgap : gap.text ≠ []) (item : Item) (rest : Items)

end

/-- A source. -/
inductive Program where
  | done (filler : Filler)
  | group (filler : Filler) (form : Form) (rest : Program)

/-! ### The text of a derivation -/

mutual

/-- The text between the parentheses of a group. -/
def Form.content : Form → Text
  | ⟨lead, command, items⟩ => lead.text ++ (command.text ++ items.text)

/-- The text of an item. -/
def Item.text : Item → Text
  | .atom atom => atom.text
  | .group form => '(' :: (form.content ++ [')'])

/-- The text of items and of the blanks around them. -/
def Items.text : Items → Text
  | .done trail => trail.text
  | .next gap _ item rest => gap.text ++ (item.text ++ rest.text)

end

/-- The text of a source. -/
def Program.text : Program → Text
  | .done filler => filler.text
  | .group filler form rest => filler.text ++ '(' :: (form.content ++ ')' :: rest.text)

/-! ### The nesting of a derivation -/

mutual

/-- How deep groups nest in a group, itself included. -/
def Form.height : Form → Nat
  | ⟨_, _, items⟩ => items.height + 1

/-- How deep groups nest in an item. The parentheses of an atom are none. -/
def Item.height : Item → Nat
  | .atom _ => 0
  | .group form => form.height

/-- How deep groups nest in items. -/
def Items.height : Items → Nat
  | .done _ => 0
  | .next _ _ item rest => max item.height rest.height

end

/-- How deep groups nest in a source. -/
def Program.height : Program → Nat
  | .done _ => 0
  | .group _ form rest => max form.height rest.height

/-! ### The trees of a derivation -/

mutual

/-- The tree of a group, without places: the first atom is the command, nothing is dropped. -/
def Form.tree : Form → Node
  | ⟨_, command, items⟩ => ⟨command.text, default, items.trees, default, false⟩

/-- The tree of an item: an atom is kept as it is. -/
def Item.tree : Item → Argument
  | .atom atom => .literal atom.text default
  | .group form => .expr form.tree

/-- The trees of items, in order. -/
def Items.trees : Items → List Argument
  | .done _ => []
  | .next _ _ item rest => item.tree :: rest.trees

end

/-- The trees of a source, in order. -/
def Program.trees : Program → List Node
  | .done _ => []
  | .group _ form rest => form.tree :: rest.trees

/-! ### Derivations are laid out in words -/

theorem Atom.isWord (a : Atom) : IsWord a.text := by
  refine ⟨a.ne_nil, fun s c r h hs => a.unbroken s c r h ?_⟩
  have hbalanced := a.balanced
  rw [h] at hbalanced
  exact (hbalanced.of_append hs).1

/-- A word without stray or unclosed parenthesis that starts with none is an atom. -/
def Atom.ofWord (w : Text) (hword : IsWord w) (hbalanced : Balanced w)
    (hhead : w.head? ≠ some '(') : Atom :=
  ⟨w, hword.ne_nil, hhead, hbalanced, fun s c r h hs => hword.uncut s c r h hs.depth_eq_zero⟩

/-- A pair of parentheses around balanced text is a word. -/
theorem isWord_enclosed {t : Text} (h : Balanced t) : IsWord ('(' :: (t ++ [')'])) := by
  refine ⟨List.cons_ne_nil _ _, fun s c r hsplit hdepth => ?_⟩
  rcases List.cons_eq_append_iff.1 hsplit with ⟨rfl, hfirst⟩ | ⟨s, rfl, hrest⟩
  · obtain ⟨rfl, -⟩ := List.cons.inj hfirst
    exact not_isBlank_open
  · rcases List.eq_nil_or_concat' r with rfl | ⟨r, last, rfl⟩
    · obtain ⟨-, hlast⟩ := List.append_inj' hrest rfl
      obtain ⟨rfl, -⟩ := List.cons.inj hlast
      exact not_isBlank_close
    · -- the place is inside the balanced text, hence below the first parenthesis
      exfalso
      rw [← List.cons_append, ← List.append_assoc] at hrest
      obtain ⟨rfl, -⟩ := List.append_inj' hrest rfl
      have hle := h.le_foldl_depthAfter 1
      change s.foldl depthAfter 1 = 0 at hdepth
      omega

mutual

theorem Form.balanced : ∀ form : Form, Balanced form.content
  | ⟨lead, command, items⟩ => by
    rw [Form.content]
    exact lead.isGap.balanced.append (command.balanced.append items.balanced)

theorem Item.balanced : ∀ item : Item, Balanced item.text
  | .atom atom => by
    rw [Item.text]
    exact atom.balanced
  | .group form => by
    rw [Item.text]
    exact form.balanced.enclosed

theorem Items.balanced : ∀ items : Items, Balanced items.text
  | .done trail => by
    rw [Items.text]
    exact trail.isGap.balanced
  | .next gap _ item rest => by
    rw [Items.text]
    exact gap.isGap.balanced.append (item.balanced.append rest.balanced)

end

theorem Item.isWord (item : Item) : IsWord item.text := by
  cases item with
  | atom atom =>
    rw [Item.text]
    exact atom.isWord
  | group form =>
    rw [Item.text]
    exact isWord_enclosed form.balanced

/-- The text is empty or starts with a blank. -/
def StartsBlank (t : Text) : Prop := t = [] ∨ ∃ c r, t = c :: r ∧ isBlank c = true

theorem Items.startsBlank (items : Items) : StartsBlank items.text := by
  cases items with
  | done trail =>
    rw [Items.text]
    cases htrail : trail.text with
    | nil => exact .inl rfl
    | cons c r => exact .inr ⟨c, r, rfl, trail.isGap c (by simp [htrail])⟩
  | next gap hgap item rest =>
    obtain ⟨c, r, hcons⟩ := List.exists_cons_of_ne_nil hgap
    rw [Items.text, hcons]
    exact .inr ⟨c, r ++ (item.text ++ rest.text), rfl, gap.isGap c (by simp [hcons])⟩

theorem StartsBlank.endsBefore {w t : Text} (h : StartsBlank t) (hw : Balanced w) :
    EndsBefore w t := h.imp id fun hblank => ⟨hw.depth_eq_zero, hblank⟩

/-! ### Uniqueness -/

theorem Atom.text_ne_enclosed (a : Atom) (t : Text) : a.text ≠ '(' :: t := by
  intro h
  exact a.head_ne (by rw [h, List.head?_cons])

mutual

theorem Form.eq_of_content : ∀ f g : Form, f.content = g.content → f = g
  | ⟨lead, command, items⟩, ⟨lead', command', items'⟩, h => by
    rw [Form.content, Form.content] at h
    obtain ⟨hlead, hcommand, hitems⟩ := cut_unique h
      lead.isGap command.isWord (items.startsBlank.endsBefore command.balanced)
      lead'.isGap command'.isWord (items'.startsBlank.endsBefore command'.balanced)
    rw [Blanks.ext hlead, Atom.ext hcommand, Items.eq_of_text items items' hitems]

theorem Item.eq_of_text : ∀ a b : Item, a.text = b.text → a = b
  | .atom a, .atom b, h => by
    rw [Item.text, Item.text] at h
    rw [Atom.ext h]
  | .atom a, .group g, h => by
    rw [Item.text, Item.text] at h
    exact absurd h (a.text_ne_enclosed _)
  | .group f, .atom b, h => by
    rw [Item.text, Item.text] at h
    exact absurd h.symm (b.text_ne_enclosed _)
  | .group f, .group g, h => by
    rw [Item.text, Item.text] at h
    have hcontent := List.append_cancel_right (List.cons.inj h).2
    rw [Form.eq_of_content f g hcontent]

theorem Items.eq_of_text : ∀ a b : Items, a.text = b.text → a = b
  | .done trail, .done trail', h => by
    rw [Items.text, Items.text] at h
    rw [Blanks.ext h]
  | .done trail, .next gap _ item rest, h => by
    rw [Items.text, Items.text] at h
    exact absurd (h ▸ trail.isGap) (not_isGap_of_word item.isWord)
  | .next gap _ item rest, .done trail, h => by
    rw [Items.text, Items.text] at h
    exact absurd (h ▸ trail.isGap) (not_isGap_of_word item.isWord)
  | .next gap _ item rest, .next gap' _ item' rest', h => by
    rw [Items.text, Items.text] at h
    obtain ⟨hgap, hitem, hrest⟩ := cut_unique h
      gap.isGap item.isWord (rest.startsBlank.endsBefore item.balanced)
      gap'.isGap item'.isWord (rest'.startsBlank.endsBefore item'.balanced)
    obtain rfl := Blanks.ext hgap
    rw [Item.eq_of_text item item' hitem, Items.eq_of_text rest rest' hrest]

end

/-- Filler ends at the first opening parenthesis. -/
theorem Filler.takeWhile (filler : Filler) (t : Text) :
    (filler.text ++ '(' :: t).takeWhile (· != '(') = filler.text := by
  rw [List.takeWhile_append_of_pos fun c hc => by simpa using (filler.plain c hc).1,
    List.takeWhile_cons_of_neg (by simp), List.append_nil]

/-- A group ends at the parenthesis that closes it. -/
theorem Form.content_eq_of_append {f g : Form} {t u : Text}
    (h : f.content ++ ')' :: t = g.content ++ ')' :: u) : f.content = g.content := by
  have hf := Group.outside_group f.balanced 0 t
  rw [h, Group.outside_group g.balanced] at hf
  exact (Group.mk.inj (List.cons.inj hf).1).2.symm

theorem Program.eq_of_text (p q : Program) (h : p.text = q.text) : p = q := by
  induction p generalizing q with
  | done filler =>
    cases q with
    | done filler' =>
      rw [Program.text, Program.text] at h
      rw [Filler.ext h]
    | group filler' form rest =>
      rw [Program.text, Program.text] at h
      exact absurd rfl (filler.plain '(' (by simp [h])).1
  | group filler form rest ih =>
    cases q with
    | done filler' =>
      rw [Program.text, Program.text] at h
      exact absurd rfl (filler'.plain '(' (by simp [← h])).1
    | group filler' form' rest' =>
      rw [Program.text, Program.text] at h
      have hfiller : filler = filler' := by
        apply Filler.ext
        rw [← filler.takeWhile, h, filler'.takeWhile]
      subst hfiller
      have htail := (List.cons.inj (List.append_cancel_left h)).2
      have hform := Form.eq_of_content form form' (Form.content_eq_of_append htail)
      subst hform
      have hrest := (List.cons.inj (List.append_cancel_left htail)).2
      rw [ih rest' hrest]

/-- **The grammar is unambiguous.** -/
theorem text_injective : Function.Injective Program.text := fun p q h => p.eq_of_text q h

end GraphTex.Grammar
