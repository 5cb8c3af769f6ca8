import GraphTex.Catalogue
import Mathlib.Data.List.Perm.Basic

/-!
# Rules that use each argument once

A rule makes a fragment of each argument that it looks at, and its template has places for the
fragments. What stands for the fragments can be collected place by place (`Template.gather`). If the
template of a rule has one place for each fragment (`Rule.isLinear`), this gives everything once, in
some order (`Rule.gather_perm`). All rules of the catalogue are of this kind (`standard_linear`).
-/

namespace GraphTex

namespace Template

/-- The indices of the fragments that have places of their own. -/
def holes : Template → List Nat
  | text _ | joined _ _ => []
  | hole index => [index]
  | enclosed _ body => body.holes
  | append left right => left.holes ++ right.holes

/-- The indices from which on all fragments are written in a row. -/
def tails : Template → List Nat
  | text _ | hole _ => []
  | joined first _ => [first]
  | enclosed _ body => body.tails
  | append left right => left.tails ++ right.tails

variable {α : Type}

/-- What stands for the fragments, place by place. -/
def gather (parts : List (List α)) : Template → List α
  | text _ => []
  | hole index => parts[index]?.getD []
  | joined first _ => (parts.drop first).flatten
  | enclosed _ body => body.gather parts
  | append left right => left.gather parts ++ right.gather parts

/-- The order of the places does not matter. -/
theorem gather_perm (t : Template) (parts : List (List α)) :
    (t.gather parts).Perm
      (t.holes.flatMap (fun i => parts[i]?.getD []) ++
        t.tails.flatMap fun i => (parts.drop i).flatten) := by
  induction t with
  | text t => exact .refl _
  | hole index => simp [gather, holes, tails]
  | joined first separator => simp [gather, holes, tails]
  | enclosed d body ih => exact ih
  | append left right ihleft ihright =>
    rw [gather, holes, tails, List.flatMap_append, List.flatMap_append]
    refine (ihleft.append ihright).trans ?_
    -- the row of the left template moves behind the places of the right one
    rw [List.append_assoc, List.append_assoc]
    refine List.Perm.append_left _ ?_
    rw [← List.append_assoc, ← List.append_assoc]
    exact List.perm_append_comm.append_right _

end Template

/-- The template writes each fragment of the rule once: the first fragments at places of their own,
in any order, and the others in a row. There is no row if the rule has exactly the fragments of its
slots and each has a place of its own. -/
def Rule.isLinear (rule : Rule) : Bool :=
  let single := rule.template.holes.length
  rule.template.holes.isPerm (List.range single) &&
    (rule.template.tails == [single] ||
      rule.template.tails == [] && rule.rest == none && rule.slots.length == single)

/-- **Every rule of the catalogue writes each fragment once.** -/
theorem standard_linear : ∀ c ∈ Registry.standard.commands, c.rule.isLinear = true := by
  decide +kernel

theorem flatMap_range_getD {α : Type} (parts : List (List α)) (k : Nat) :
    ((List.range k).flatMap fun i => parts[i]?.getD []) = (parts.take k).flatten := by
  induction k generalizing parts with
  | zero => rfl
  | succ k ih =>
    rw [List.range_succ_eq_map, List.flatMap_cons, List.flatMap_map]
    cases parts with
    | nil => simp
    | cons part parts =>
      rw [List.take_succ_cons, List.flatten_cons, ← ih parts]
      rfl

/-- **A linear rule uses everything once.** -/
theorem Rule.gather_perm {α : Type} {rule : Rule} (h : rule.isLinear = true)
    {parts : List (List α)} (hlength : rule.rest = none → parts.length = rule.slots.length) :
    (rule.template.gather parts).Perm parts.flatten := by
  simp only [Rule.isLinear, Bool.and_eq_true, Bool.or_eq_true, beq_iff_eq] at h
  obtain ⟨hholes, htails⟩ := h
  have hsingle := (List.isPerm_iff.1 hholes).flatMap_right fun i => parts[i]?.getD []
  rw [flatMap_range_getD] at hsingle
  refine (rule.template.gather_perm parts).trans ((hsingle.append_right _).trans (.of_eq ?_))
  rcases htails with hrow | ⟨⟨hnone, hrest⟩, hslots⟩
  · -- the row starts behind the fragments that have places of their own
    rw [hrow, List.flatMap_singleton, ← List.flatten_append, List.take_append_drop]
  · -- without a row all fragments have places of their own
    rw [hnone, List.flatMap_nil, List.append_nil, ← hslots, ← hlength hrest, List.take_length]

end GraphTex
