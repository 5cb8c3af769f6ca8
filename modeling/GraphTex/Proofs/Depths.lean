import GraphTex.Proofs.Faithful

/-!
# Nodes by their depth

The root of a tree is at depth one, and the expressions among the arguments of a node are one deeper
than the node (`Node.nodesAt`). Reading goes down in the same way: a node at a depth is what is read
from the text at its span, with one level less for each step down, and what is reported on it there
is reported by the whole reading (`Node.exists_descent`).
-/

namespace GraphTex

open Paren

/-! ### Depths -/

/-- The expression that an argument is, if it is one. -/
def Argument.node? : Argument → Option Node
  | .literal _ _ => none
  | .expr node => some node

/-- The expressions among the arguments. -/
def Node.children (n : Node) : List Node := n.args.filterMap Argument.node?

/-- The nodes at a depth, in order. The root is at depth one. -/
def Node.nodesAt : Nat → Node → List Node
  | 0, _ => []
  | 1, n => [n]
  | depth + 2, n => n.children.flatMap fun child => child.nodesAt (depth + 1)

theorem Argument.node?_eq_some_iff {arg : Argument} {n : Node} :
    arg.node? = some n ↔ arg = .expr n := by
  cases arg <;> simp [Argument.node?]

theorem Node.mem_children {n child : Node} : child ∈ n.children ↔ .expr child ∈ n.args := by
  simp only [Node.children, List.mem_filterMap, Argument.node?_eq_some_iff]
  constructor
  · rintro ⟨arg, harg, rfl⟩
    exact harg
  · intro hchild
    exact ⟨_, hchild, rfl⟩

/-- Every node of a tree is at some depth. -/
theorem Node.exists_depth_of_mem_nodes {n m : Node} (h : m ∈ n.nodes) :
    ∃ depth, m ∈ n.nodesAt depth := by
  induction n using Node.induction with
  | node n ih =>
    rcases Node.mem_nodes.1 h with rfl | ⟨child, hchild, hm⟩
    · exact ⟨1, by simp [Node.nodesAt]⟩
    · obtain ⟨depth, hdepth⟩ := ih child hchild hm
      cases depth with
      | zero => simp [Node.nodesAt] at hdepth
      | succ depth =>
        exact ⟨depth + 2, List.mem_flatMap.2 ⟨child, Node.mem_children.2 hchild, hdepth⟩⟩

/-! ### Pieces of a text -/

namespace Text

/-- The text, which stands at `offset`, has the piece at `place`. -/
def HasPiece (text : Text) (offset : Nat) (piece : Text) (place : Nat) : Prop :=
  ∃ before after : Text, text = before ++ (piece ++ after) ∧ place = offset + before.bytes

/-- The piece that a span cuts out of a text which stands at `offset`. -/
def sliceFrom? (offset : Nat) (text : Text) (s : Span) : Option Text :=
  if offset ≤ s.start ∧ offset ≤ s.stop then text.slice? ⟨s.start - offset, s.stop - offset⟩
  else none

theorem HasPiece.refl (text : Text) (offset : Nat) : text.HasPiece offset text offset :=
  ⟨[], [], by simp, by simp⟩

theorem HasPiece.trans {text piece part : Text} {offset place spot : Nat}
    (h : text.HasPiece offset piece place) (hpart : piece.HasPiece place part spot) :
    text.HasPiece offset part spot := by
  obtain ⟨before, after, rfl, rfl⟩ := h
  obtain ⟨front, back, rfl, rfl⟩ := hpart
  refine ⟨before ++ front, back ++ after, by simp, ?_⟩
  rw [bytes_append, Nat.add_assoc]

theorem HasPiece.sliceFrom?_eq {text piece : Text} {offset place : Nat}
    (h : text.HasPiece offset piece place) :
    text.sliceFrom? offset (.ofText place piece) = some piece := by
  obtain ⟨before, after, rfl, rfl⟩ := h
  rw [sliceFrom?, if_pos (by simp only [Span.ofText]; omega)]
  refine slice?_eq_some_iff.2 ⟨before, after, rfl, ?_⟩
  simp only [Span.ofText, Span.mk.injEq]
  omega

end Text

theorem Token.hasPiece_of_mem_split {text : Text} {offset : Nat} {t : Token}
    (ht : t ∈ (Token.split offset text).value) : text.HasPiece offset t.text t.start :=
  ((Token.laidOut_split text offset).placed t ht).2

/-- The content of a token in parentheses is a piece of the token. -/
theorem Token.hasPiece_content {t : Token} {content : Text}
    (h : t.text = '(' :: (content ++ [')'])) : t.text.HasPiece t.start content (t.start + 1) :=
  ⟨['('], [')'], h, by simp [utf8Size_open]⟩

/-! ### Descent -/

/-- The node at a depth is read from the text at its span, as part of the whole reading. -/
structure Descent (limit left : Nat) (text : Text) (offset : Nat) (reports : List Report) (m : Node)
    (content : Text) : Prop where
  piece : text.HasPiece offset content m.span.start
  read : (Node.read limit (left + 1) m.span.start content).value = some m
  reports : ∀ r ∈ (Node.read limit (left + 1) m.span.start content).reports, r ∈ reports

variable {limit levels offset depth : Nat} {text : Text} {n m : Node}

/-- An expression among the arguments is read from the content of one of the tokens. -/
theorem Node.exists_token_of_child (h : (Node.read limit (levels + 1) offset text).value = some n)
    {child : Node} (hchild : .expr child ∈ n.args) :
    ∃ t ∈ (Token.split offset text).value.tail, ∃ content, t.text = '(' :: (content ++ [')']) ∧
      (Node.read limit levels (t.start + 1) content).value = some child ∧
      ∀ r ∈ (Node.read limit levels (t.start + 1) content).reports,
        r ∈ (Node.read limit (levels + 1) offset text).reports := by
  obtain ⟨head, rest, htokens, hopen, rfl⟩ := Node.read_eq_some h
  obtain ⟨t, ht, hread⟩ := List.mem_filterMap.1 hchild
  rcases Argument.read_eq_some hread with ⟨-, hliteral⟩ | ⟨content, _, htext, hvalue, hexpr⟩
  · cases hliteral
  · cases hexpr
    refine ⟨t, by rwa [htokens], content, htext, hvalue, fun r hr => ?_⟩
    rw [Node.read_command htokens hopen]
    refine List.mem_append_right _ (List.mem_flatMap.2 ⟨t, ht, ?_⟩)
    rwa [Argument.read_expr htext]

/-- **Every node is read from the text at its span.** Each step down leaves one level less. -/
theorem Node.exists_descent (h : (Node.read limit levels offset text).value = some n)
    (hm : m ∈ n.nodesAt depth) :
    ∃ left content, levels = left + depth ∧
      Descent limit left text offset (Node.read limit levels offset text).reports m content := by
  cases levels with
  | zero => exact absurd h (by simp [Node.read_zero])
  | succ levels =>
    induction depth, n using Node.nodesAt.induct generalizing levels offset text with
    | case1 n => simp [Node.nodesAt] at hm
    | case2 n =>
      obtain rfl : m = n := List.mem_singleton.1 hm
      have hspan := Node.span_of_read h
      refine ⟨levels, text, rfl, ?_, ?_, ?_⟩ <;> rw [hspan]
      · exact .refl text offset
      · exact h
      · exact fun r hr => hr
    | case3 depth n ih =>
      obtain ⟨child, hchild, hdeep⟩ := List.mem_flatMap.1 hm
      obtain ⟨t, ht, content, htext, hvalue, hreports⟩ :=
        Node.exists_token_of_child h (Node.mem_children.1 hchild)
      cases levels with
      | zero => exact absurd hvalue (by simp [Node.read_zero])
      | succ levels =>
        obtain ⟨left, inner, hleft, hdescent⟩ := ih child hdeep levels hvalue
        have hpiece := (Token.hasPiece_of_mem_split (List.mem_of_mem_tail ht)).trans
          (Token.hasPiece_content htext)
        refine ⟨left, inner, by omega, hpiece.trans hdescent.piece, hdescent.read, fun r hr => ?_⟩
        exact hreports r (hdescent.reports r hr)

end GraphTex
