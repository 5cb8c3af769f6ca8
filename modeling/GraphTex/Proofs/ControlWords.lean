import GraphTex.Proofs.Written
import Mathlib.Data.List.Infix

/-!
# Control words do not fuse

A letter that directly follows a control word is read as a part of it, so `\le` with a variable `f`
behind it would be another word. In an output of trees without `latex` this never happens: the
letters behind each backslash, as far as they go, spell one of the control words of the templates,
and a backslash without letter stands in front of a brace (`output_control_words`).
-/

namespace GraphTex

open Latex

/-- What stands behind a backslash: the letters in front, as far as they go, spell a control word of
the templates, and if there are none, there is a brace. -/
def SpellsOut (after : Text) : Prop :=
  (after.takeWhile Char.isAlpha ≠ [] →
    ∃ word ∈ controlWords, after.takeWhile Char.isAlpha = word.toList) ∧
  (after.takeWhile Char.isAlpha = [] → after.head? = some '{' ∨ after.head? = some '}')

instance (after : Text) : Decidable (SpellsOut after) := inferInstanceAs (Decidable (_ ∧ _))

theorem SpellsOut.append {s t : Text} (hs : SpellsOut s)
    (h : s.all Char.isAlpha = false ∨ startsWithLetter t = false) : SpellsOut (s ++ t) := by
  unfold SpellsOut
  rw [takeWhile_isAlpha_append h]
  refine ⟨hs.1, fun hnone => ?_⟩
  have hbrace := hs.2 hnone
  cases s with
  | nil => exact absurd hbrace (by simp)
  | cons c s => exact hbrace

/-- Delimiters are spelled out, whatever follows. -/
theorem Delimiter.spellsOut (d : Delimiter) {before after : Text}
    (h : d.opening = before ++ '\\' :: after ∨ d.closing = before ++ '\\' :: after) :
    SpellsOut after ∧ after.all Char.isAlpha = false := by
  have hall : ∀ tail ∈ d.opening.tails ++ d.closing.tails, tail.head? = some '\\' →
      SpellsOut tail.tail ∧ tail.tail.all Char.isAlpha = false := by
    cases d <;> decide
  refine hall ('\\' :: after) ?_ rfl
  rw [List.mem_append, List.mem_tails, List.mem_tails]
  exact h.imp (fun h => ⟨before, h.symm⟩) fun h => ⟨before, h.symm⟩

/-- **Behind every backslash of a written text something is spelled out.** -/
theorem IsWritten.spellsOut {t : Text} (h : IsWritten t) :
    ∀ before after, t = before ++ '\\' :: after → SpellsOut after := by
  induction h with
  | nil => simp
  | char hc _ ih =>
    intro before after hcut
    rcases List.cons_eq_append_iff.1 hcut with ⟨-, hfirst⟩ | ⟨before, -, hrest⟩
    · rw [← (List.cons.inj hfirst).1] at hc
      exact absurd hc (by decide)
    · exact ih before after hrest
  | @word letters t hword hend _ ih =>
    have hletters := isAlpha_of_isPlainWord hword
    intro before after hcut
    rcases List.cons_eq_append_iff.1 hcut with ⟨-, hfirst⟩ | ⟨before, -, hrest⟩
    · -- the backslash of the word itself: the letters end where the word does
      obtain rfl := (List.cons.inj hfirst).2
      have htake := takeWhile_isAlpha_word hletters hend
      obtain ⟨name, hname, hspelled⟩ := mem_controlWords_of_plain hword
      unfold SpellsOut
      rw [htake]
      exact ⟨fun _ => ⟨name, hname, hspelled.symm⟩, fun h => absurd h (ne_nil_of_isPlainWord hword)⟩
    · rcases cut_append hrest with ⟨k, hk, -⟩ | ⟨k, -, hk⟩
      · exact absurd (hletters '\\' (by simp [hk])) (by decide)
      · exact ih k after hk
  | @enclosed d s t _ _ ihbody ih =>
    intro before after hcut
    -- the place is in the left delimiter, in the text between, in the right one or behind
    rcases cut_append hcut with ⟨k, hopening, rfl⟩ | ⟨rest, -, hcut⟩
    · obtain ⟨hspelled, hother⟩ := d.spellsOut (.inl hopening)
      exact hspelled.append (.inl hother)
    rcases cut_append hcut with ⟨k, hbody, rfl⟩ | ⟨rest, -, hcut⟩
    · exact (ihbody rest k hbody).append (.inr (d.not_startsWithLetter_closing t))
    rcases cut_append hcut with ⟨k, hclosing, rfl⟩ | ⟨rest, -, hcut⟩
    · obtain ⟨hspelled, hother⟩ := d.spellsOut (.inr hclosing)
      exact hspelled.append (.inl hother)
    · exact ih rest after hcut

/-- **Control words do not fuse with what follows them.** In the output of a source whose trees have
no `latex`, the letters behind a backslash, as far as they go, are a control word of the templates,
and a backslash without a letter behind it has a brace there. -/
theorem output_control_words (limit : Nat) (source : Source) {output : Text}
    (houtput : (Compiler.compile { maxDepth := limit } source).output = some output)
    (hlatex : ∀ n ∈ (Compiler.parse { maxDepth := limit } source.content).value, ∀ m ∈ n.nodes,
      m.command ≠ "latex".toList)
    {before after : Text} (hslash : output = before ++ '\\' :: after) : SpellsOut after := by
  obtain ⟨-, hrender⟩ := (Compiler.isSome_output_iff _ source).1 (Option.isSome_iff_exists.2
    ⟨output, houtput⟩)
  have hfragments : ∀ fragment ∈ (Compiler.parse { maxDepth := limit } source.content).value.map
      (fun n => (Registry.standard.render n).value), IsWritten fragment := by
    intro fragment hfragment
    obtain ⟨n, hn, rfl⟩ := List.mem_map.1 hfragment
    exact isWritten_render (hrender n hn) (hlatex n hn)
  rw [Compiler.eq_of_output _ houtput] at hslash
  exact (IsWritten.lines hfragments).spellsOut before after hslash

/-- A sign with nothing in front of it, and behind it a numeral that starts with a letter. -/
theorem output_control_words_numeral :
    (Compiler.compile { maxDepth := 2 } ⟨"input", "(leq (params) e1)".toList⟩).output =
      some "\\le e1\n".toList ∧ SpellsOut "le e1\n".toList := by
  have houtput : (Compiler.compile { maxDepth := 2 } ⟨"input", "(leq (params) e1)".toList⟩).output =
      some "\\le e1\n".toList := by decide +kernel
  exact ⟨houtput, output_control_words 2 _ houtput (by decide +kernel)
    (show "\\le e1\n".toList = [] ++ '\\' :: "le e1\n".toList by decide)⟩

end GraphTex
