import GraphTex.Proofs.Acceptance
import GraphTex.Proofs.Relocation

/-!
# Reports of mismatched parentheses

Parentheses are matched when the groups of a source are found, when the content of a group is cut
into tokens, and when the parentheses around a token are taken away. If the parentheses of a source
do not match, that is reported. If they match, finding groups and cutting tokens report nothing, but
a token ends at a blank and not at the parenthesis that closes it. So two groups without a blank
between them, as in `(add (pi)(tau))`, are one token: without its first and last character it is
`pi)(tau`, which is reported as mismatched. Text right behind a group is reported as well. These are
all cases (`compile_mismatch_iff`).
-/

namespace GraphTex

open Paren

/-- Some report is on mismatched parentheses. -/
def HasMismatch (reports : List Report) : Prop := ∃ r ∈ reports, r.fault = .mismatchedParentheses

@[simp] theorem not_hasMismatch_nil : ¬ HasMismatch [] := by simp [HasMismatch]

theorem hasMismatch_singleton {fault : Fault} {span : Span} :
    HasMismatch [⟨fault, span⟩] ↔ fault = .mismatchedParentheses := by simp [HasMismatch]

theorem hasMismatch_append {reports later : List Report} :
    HasMismatch (reports ++ later) ↔ HasMismatch reports ∨ HasMismatch later := by
  simp only [HasMismatch, List.mem_append, or_and_right, exists_or]

theorem hasMismatch_flatMap {α : Type} {as : List α} {f : α → List Report} :
    HasMismatch (as.flatMap f) ↔ ∃ a ∈ as, HasMismatch (f a) := by
  simp only [HasMismatch, List.mem_flatMap]
  constructor
  · rintro ⟨r, ⟨a, ha, hr⟩, hfault⟩
    exact ⟨a, ha, r, hr, hfault⟩
  · rintro ⟨a, ha, r, hr, hfault⟩
    exact ⟨r, ⟨a, ha, hr⟩, hfault⟩

/-! ### Groups that run on -/

/-- A pair of matching parentheses with more text right behind it. -/
def RunsOn (w : Text) : Prop := ∃ s r, w = '(' :: (s ++ ')' :: r) ∧ Balanced s ∧ r ≠ []

theorem not_balanced_close (t : Text) : ¬ Balanced (')' :: t) := by
  intro h
  cases h with
  | plain _ hclose _ => exact hclose rfl

/-- A balanced text that starts with a parenthesis is a group, or a group that runs on. -/
theorem Paren.Balanced.enclosed_or_runsOn {t : Text} (h : Balanced ('(' :: t)) :
    (∃ content, t = content ++ [')'] ∧ Balanced content) ∨ RunsOn ('(' :: t) := by
  cases h with
  | plain hopen _ _ => exact absurd rfl hopen
  | @nested s r hs hr =>
    by_cases hnil : r = []
    · subst hnil
      exact .inl ⟨s, rfl, hs⟩
    · exact .inr ⟨s, r, rfl, hs, hnil⟩

/-- What is left of a group that runs on without its first and last character is not balanced. -/
theorem RunsOn.not_balanced {content : Text} (h : RunsOn ('(' :: (content ++ [')']))) :
    ¬ Balanced content := by
  obtain ⟨s, r, htext, hs, hr⟩ := h
  obtain ⟨front, last, rfl⟩ := (List.eq_nil_or_concat' r).resolve_left hr
  have hcontent : content = s ++ ')' :: front := by
    have htail := (List.cons.inj htext).2
    rw [← List.cons_append, ← List.append_assoc] at htail
    exact (List.append_inj' htail rfl).1
  intro hbalanced
  rw [hcontent] at hbalanced
  exact not_balanced_close front (hbalanced.of_append hs.depth_eq_zero).2

/-! ### Texts that are misread

A token is misread if it starts with a parenthesis that is closed before its end. Then either its
last character is no parenthesis, or what stands between its first and last character is read one
level further down and is not balanced. -/

/-- The words of a text behind its command. A text without command has none. -/
def arguments (text : Text) : List Text :=
  match (Token.split 0 text).value with
  | [] => []
  | head :: rest => if head.isParenthesized then [] else rest.map Token.text

mutual

/-- Reading a text, with a number of levels left, comes to an argument that runs on. -/
inductive Misread : Nat → Text → Prop
  | argument {levels : Nat} {text w : Text} (harg : w ∈ arguments text)
      (h : MisreadArgument levels w) : Misread (levels + 1) text

/-- Reading an argument, with a number of levels left below it, comes to one that runs on. If its
last character is a parenthesis, that shows one level further down. -/
inductive MisreadArgument : Nat → Text → Prop
  | runsOn {levels : Nat} {w : Text} (hw : RunsOn w)
      (hlevel : w.getLast? = some ')' → 0 < levels) : MisreadArgument levels w
  | group {levels : Nat} {content : Text} (hcontent : Balanced content)
      (h : Misread levels content) : MisreadArgument levels ('(' :: (content ++ [')']))

end

theorem not_misread_zero (text : Text) : ¬ Misread 0 text := nofun

theorem misread_succ_iff {levels : Nat} {text : Text} :
    Misread (levels + 1) text ↔ ∃ w ∈ arguments text, MisreadArgument levels w :=
  ⟨fun | .argument harg h => ⟨_, harg, h⟩, fun ⟨_, harg, h⟩ => .argument harg h⟩

theorem MisreadArgument.head? {levels : Nat} {w : Text} (h : MisreadArgument levels w) :
    w.head? = some '(' := by
  cases h with
  | runsOn hw _ =>
    obtain ⟨s, r, rfl, -⟩ := hw
    rw [List.head?_cons]
  | group _ _ => rw [List.head?_cons]

/-- An argument whose first parenthesis is not closed by its last character. -/
theorem misreadArgument_of_not_enclosed {t : Text} (ht : Balanced ('(' :: t))
    (h : ∀ content, t ≠ content ++ [')']) (levels : Nat) : MisreadArgument levels ('(' :: t) := by
  refine .runsOn (ht.enclosed_or_runsOn.resolve_left ?_) fun hlast => ?_
  · rintro ⟨content, hcontent, -⟩
    exact h content hcontent
  · obtain ⟨front, hfront⟩ := List.getLast?_eq_some_iff.1 hlast
    rcases List.cons_eq_append_iff.1 hfront with ⟨-, hclose⟩ | ⟨content, -, hcontent⟩
    · exact absurd (List.cons.inj hclose).1 (by decide)
    · exact absurd hcontent (h content)

section Enclosed

variable {levels : Nat} {content : Text}

/-- An argument whose first and last character are a pair of matching parentheses. -/
theorem misreadArgument_group_iff (hcontent : Balanced content) :
    MisreadArgument levels ('(' :: (content ++ [')'])) ↔ Misread levels content := by
  refine ⟨fun h => ?_, .group hcontent⟩
  generalize hw : '(' :: (content ++ [')']) = w at h
  cases h with
  | runsOn hruns _ =>
    rw [← hw] at hruns
    exact absurd hcontent hruns.not_balanced
  | group _ h =>
    rwa [List.append_cancel_right (List.cons.inj hw).2]

/-- An argument whose first and last character are parentheses, but not a pair. -/
theorem misreadArgument_touching_iff (hcontent : ¬ Balanced content)
    (hw : Balanced ('(' :: (content ++ [')']))) :
    MisreadArgument levels ('(' :: (content ++ [')'])) ↔ 0 < levels := by
  have hruns : RunsOn ('(' :: (content ++ [')'])) := by
    refine hw.enclosed_or_runsOn.resolve_left ?_
    rintro ⟨inner, hinner, h⟩
    rw [← List.append_cancel_right hinner] at h
    exact hcontent h
  constructor
  · intro h
    generalize hw : '(' :: (content ++ [')']) = w at h
    cases h with
    | runsOn _ hlevel =>
      refine hlevel ?_
      rw [← hw, ← List.cons_append, List.getLast?_concat]
    | group hinner _ =>
      rw [← List.append_cancel_right (List.cons.inj hw).2] at hinner
      exact absurd hinner hcontent
  · intro hlevel
    exact .runsOn hruns fun _ => hlevel

end Enclosed

/-- Arguments do not depend on where the text stands. -/
theorem arguments_eq (offset : Nat) (text : Text) :
    arguments text =
      match (Token.split offset text).value with
      | [] => []
      | head :: rest => if head.isParenthesized then [] else rest.map Token.text := by
  have hsplit := Token.split_shift text 0 offset
  rw [Nat.zero_add] at hsplit
  rw [arguments, hsplit]
  cases (Token.split 0 text).value with
  | nil => rfl
  | cons head rest =>
    have hhead : (head.shift offset).isParenthesized = head.isParenthesized := rfl
    simp [hhead, Function.comp_def]

theorem Token.balanced_of_mem_split {text : Text} (h : Balanced text) (offset : Nat) :
    ∀ t ∈ (Token.split offset text).value, Balanced t.text := by
  induction text using layout_induction generalizing offset with
  | gap g hg =>
    have htokens := Token.tokens_gap hg offset []
    rw [List.append_nil, Token.tokens_nil] at htokens
    rw [htokens]
    exact fun t ht => absurd ht List.not_mem_nil
  | word g w r hg hw hend ih =>
    obtain ⟨hword, hrest⟩ := Grammar.EndsBefore.balanced hend
      (h.of_append hg.balanced.depth_eq_zero).2
    rw [Token.tokens_gap hg, Token.tokens_word hw hend]
    intro t ht
    rcases List.mem_cons.1 ht with rfl | ht
    · exact hword
    · exact ih hrest _ t ht

/-! ### Reading -/

/-- Text that is not balanced is reported if there is a level left to read it. -/
theorem Node.hasMismatch_of_not_balanced {text : Text} (h : ¬ Balanced text)
    (limit levels offset : Nat) :
    HasMismatch (Node.read limit levels offset text).reports ↔ 0 < levels := by
  cases levels with
  | zero => simp [Node.read_zero, hasMismatch_singleton]
  | succ levels =>
    obtain ⟨later, hreports⟩ := Node.exists_reports_read limit levels offset text
    have hsplit : (Token.split offset text).reports ≠ [] := mt (Token.reports_split offset text).1 h
    obtain ⟨r, hr⟩ := List.exists_mem_of_ne_nil _ hsplit
    rw [hreports, hasMismatch_append]
    exact iff_of_true (.inl ⟨r, hr, Token.fault_of_mem_split hr⟩) (Nat.succ_pos levels)

section Levels

variable {limit levels : Nat}

/-- What the levels left report on balanced text. -/
def FindsMisread (limit levels : Nat) : Prop :=
  ∀ offset text, Balanced text →
    (HasMismatch (Node.read limit levels offset text).reports ↔ Misread levels text)

theorem Argument.hasMismatch_iff (hlevels : FindsMisread limit levels) {t : Token}
    (ht : Balanced t.text) :
    HasMismatch (Argument.read (Node.read limit levels) t).reports ↔
      MisreadArgument levels t.text := by
  rcases t.shape with hliteral | ⟨hopen, hcontent⟩ | ⟨content, htext⟩
  · rw [Argument.read_literal hliteral]
    exact iff_of_false not_hasMismatch_nil fun h =>
      Token.not_isParenthesized_iff.1 hliteral h.head?
  · obtain ⟨rest, hrest⟩ := List.head?_eq_some_iff.1 (Token.isParenthesized_iff.1 hopen)
    rw [Argument.read_unclosed hopen hcontent, hasMismatch_singleton]
    refine iff_of_true rfl ?_
    rw [hrest] at ht ⊢
    refine misreadArgument_of_not_enclosed ht ?_ levels
    rintro content rfl
    rw [Token.content?_eq_some_iff.2 hrest] at hcontent
    exact absurd hcontent (by simp)
  · rw [Argument.read_expr htext]
    rw [htext] at ht ⊢
    by_cases hbalanced : Balanced content
    · rw [hlevels _ _ hbalanced, misreadArgument_group_iff hbalanced]
    · rw [Node.hasMismatch_of_not_balanced hbalanced, misreadArgument_touching_iff hbalanced ht]

end Levels

/-- **Reading balanced text reports a mismatch exactly if the text is misread.** -/
theorem Node.hasMismatch_iff (limit levels : Nat) : FindsMisread limit levels := by
  induction levels with
  | zero =>
    intro offset text _
    rw [Node.read_zero, hasMismatch_singleton]
    exact iff_of_false (by simp) (not_misread_zero text)
  | succ levels ih =>
    intro offset text htext
    have hsplit : (Token.split offset text).reports = [] :=
      (Token.reports_split offset text).2 htext
    have hbalanced := Token.balanced_of_mem_split htext offset
    rw [misread_succ_iff, arguments_eq offset]
    cases htokens : (Token.split offset text).value with
    | nil => simp [Node.read_empty htokens, hsplit, hasMismatch_singleton]
    | cons head rest =>
      cases hopen : head.isParenthesized with
      | true => simp [Node.read_enclosed htokens hopen, hsplit, hasMismatch_singleton, hopen]
      | false =>
        have hargs : ∀ t ∈ rest, Balanced t.text := fun t ht =>
          hbalanced t (by rw [htokens]; exact List.mem_cons_of_mem head ht)
        rw [Node.read_command htokens hopen, hsplit, List.nil_append, hasMismatch_flatMap]
        simp only [hopen, Bool.false_eq_true, if_false, List.mem_map]
        constructor
        · rintro ⟨t, ht, h⟩
          exact ⟨t.text, ⟨t, ht, rfl⟩, (Argument.hasMismatch_iff ih (hargs t ht)).1 h⟩
        · rintro ⟨w, ⟨t, ht, rfl⟩, h⟩
          exact ⟨t, ht, (Argument.hasMismatch_iff ih (hargs t ht)).2 h⟩

/-! ### Compiling -/

theorem Group.balanced_of_mem_outside {source : Text} (h : Balanced source) (offset : Nat) :
    ∀ g ∈ Group.outside offset source, Balanced g.content := by
  induction h generalizing offset with
  | nil => simp [Group.outside]
  | plain hopen _ _ ih =>
    rw [Group.outside, if_neg hopen]
    exact ih _
  | nested hs _ _ iht =>
    rw [Group.outside_group hs]
    intro g hg
    rcases List.mem_cons.1 hg with rfl | hg
    · exact hs
    · exact iht _ g hg

theorem Registry.not_hasMismatch_render (r : Registry) (n : Node) :
    ¬ HasMismatch (r.render n).reports := by
  rintro ⟨report, hmem, hfault⟩
  have hphase := Registry.phase_of_mem_render hmem
  rw [hfault] at hphase
  cases hphase

namespace Compiler

variable (c : Compiler)

theorem hasMismatch_compileGroup (g : Group) :
    HasMismatch (c.compileGroup g).reports ↔ HasMismatch (c.readGroup g).reports := by
  rw [reports_compileGroup, hasMismatch_append]
  cases (c.readGroup g).value with
  | none => simp
  | some n => simp [Registry.not_hasMismatch_render]

/-- **When parentheses are reported as mismatched.** Compiling reports mismatched parentheses
exactly if those of the source do not match or if, in some group of the source, an argument in
parentheses runs on behind the parenthesis that closes it. -/
theorem compile_mismatch_iff (source : Source) :
    (∃ d ∈ (c.compile source).diagnostics, d.fault = .mismatchedParentheses) ↔
      ¬ Balanced source.content ∨
        ∃ g ∈ (Group.find source.content).value, Misread c.maxDepth g.content := by
  have hreports : (∃ d ∈ (c.compile source).diagnostics, d.fault = .mismatchedParentheses) ↔
      HasMismatch (c.fragments source.content).reports := by
    rw [HasMismatch, ← List.mem_map, ← List.mem_map, faults_compile]
  rw [hreports, reports_fragments, hasMismatch_append, groupReports, hasMismatch_flatMap]
  by_cases hbalanced : Balanced source.content
  · have hfind : (Group.find source.content).reports = [] :=
      (Group.reports_find source.content).2 hbalanced
    have hgroups := Group.balanced_of_mem_outside hbalanced 0
    simp only [hfind, not_hasMismatch_nil, hbalanced, not_true_eq_false, false_or,
      hasMismatch_compileGroup]
    refine exists_congr fun g => and_congr_right fun hg => ?_
    exact Node.hasMismatch_iff c.maxDepth c.maxDepth _ _ (hgroups g hg)
  · have hfind : (Group.find source.content).reports ≠ [] :=
      mt (Group.reports_find source.content).1 hbalanced
    obtain ⟨r, hr⟩ := List.exists_mem_of_ne_nil _ hfind
    obtain ⟨o, rfl⟩ := Group.eq_mismatch_of_mem_find hr
    exact iff_of_true (.inl ⟨_, hr, rfl⟩) (.inl hbalanced)

/-- Two groups with no blank between them, in a source whose parentheses match. -/
theorem mismatch_of_touching_groups :
    Balanced "(add (pi)(tau))".toList ∧
      ∃ d ∈ (compile {} ⟨"input", "(add (pi)(tau))".toList⟩).diagnostics,
        d.fault = .mismatchedParentheses :=
  ⟨(balanced_iff 0 _).2 (by decide), by decide +kernel⟩

end Compiler

end GraphTex
