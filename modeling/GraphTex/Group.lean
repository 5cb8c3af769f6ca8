import GraphTex.Paren

/-!
# Groups

A group is an outermost pair of matching parentheses with the text between them. The text around
groups is ignored. A stray closing parenthesis is reported and skipped. What follows an opening
parenthesis that is never closed belongs to no group.
-/

namespace GraphTex

/-- An outermost pair of parentheses: the offset of the opening one and the text inside. -/
structure Group where
  start : Nat
  content : Text
  deriving DecidableEq, Repr

namespace Group

/-- The span between the parentheses. -/
def contentSpan (g : Group) : Span := .ofText (g.start + 1) g.content

/-- The span with both parentheses. -/
def span (g : Group) : Span := ⟨g.start, g.contentSpan.stop + 1⟩

mutual

/-- The groups of a text that stands at `offset`, outside all parentheses. -/
def outside (offset : Nat) : Text → List Group
  | [] => []
  | c :: rest =>
    if c = '(' then
      match inside 0 (offset + 1) rest with
      | some (content, later) => ⟨offset, content⟩ :: later
      | none => []
    else outside (offset + c.utf8Size) rest

/-- Reads on inside a group, below `depth` further parentheses: the rest of its content and the
groups behind it, or nothing if the group is never closed. -/
def inside (depth offset : Nat) : Text → Option (Text × List Group)
  | [] => none
  | c :: rest =>
    if depth = 0 ∧ c = ')' then some ([], outside (offset + 1) rest)
    else
      (inside (Paren.depthAfter depth c) (offset + c.utf8Size) rest).map fun (content, later) =>
        (c :: content, later)

end

/-- The groups of a source, with reports on its stray parentheses and on the outermost unclosed
one. -/
def find (source : Text) : Logged (List Group) :=
  ⟨outside 0 source,
    Paren.strays 0 0 source ++ ((Paren.unclosed? 0 0 0 source).map Paren.mismatch).toList⟩

end Group

end GraphTex
