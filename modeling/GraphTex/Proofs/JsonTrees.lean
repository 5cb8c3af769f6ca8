import GraphTex.Node.Json
import GraphTex.Proofs.Trees
import Mathlib.Data.List.Forall2

/-!
# Trees in their JSON form

The object for a node says in its members what the node is (`Node.DescribedBy`). So does the object
for an expression among the arguments, where the mark of its kind stands beside the members of the
node. Reading looks members up by their keys, and members that it does not look up make no
difference. So it finds the tree in both (`Node.ofJson?_of_describedBy`), provided that every offset
of the tree fits into 64 bits. In the other direction, every tree that is read fits
(`Node.fits_of_ofJson?`), whatever the value looked like, so writing it and reading it again changes
nothing.
-/

namespace GraphTex

/-! ### Members and offsets -/

namespace Json

theorem field?_cons (key name : String) (value : Json) (fields : List (String × Json)) :
    field? key ((name, value) :: fields) =
      if name = key then some value else field? key fields := by
  unfold field?
  by_cases h : name = key
  · rw [if_pos h, List.find?_cons_of_pos (by simpa using h), Option.map_some]
  · rw [if_neg h, List.find?_cons_of_neg (by simpa using h)]

/-- A natural number is read back exactly if it fits into 64 bits. -/
theorem word?_nat (n : Nat) : (nat n).word? = if n < UInt64.size then some n else none := by
  simp [nat, word?]

theorem lt_of_word? {j : Json} {n : Nat} (h : j.word? = some n) : n < UInt64.size := by
  cases j with
  | int i =>
    simp only [word?] at h
    split_ifs at h with hi
    cases h
    exact hi.2
  | _ => simp [word?] at h

end Json

/-- Both offsets of the span fit into 64 bits. -/
def Span.Fits (s : Span) : Prop := s.start < UInt64.size ∧ s.stop < UInt64.size

theorem Span.ofJson?_toJson {s : Span} (h : s.Fits) : Span.ofJson? s.toJson = some s := by
  simp [Span.toJson, Span.ofJson?, Json.field?_cons, Json.word?_nat, h.1, h.2]

theorem Span.fits_of_ofJson? {j : Json} {s : Span} (h : Span.ofJson? j = some s) : s.Fits := by
  unfold Span.ofJson? at h
  split at h
  · simp only [Option.bind_eq_bind, Option.bind_eq_some_iff] at h
    obtain ⟨_, -, start, hstart, _, -, stop, hstop, heq⟩ := h
    cases heq
    exact ⟨Json.lt_of_word? hstart, Json.lt_of_word? hstop⟩
  · simp only [Option.bind_eq_bind, Option.bind_eq_some_iff] at h
    obtain ⟨start, hstart, stop, hstop, heq⟩ := h
    cases heq
    exact ⟨Json.lt_of_word? hstart, Json.lt_of_word? hstop⟩
  · cases h

/-- The spans of a tree, those of its arguments at all depths included. -/
def Node.spans (n : Node) : List Span :=
  n.nodes.flatMap fun m => m.commandSpan :: m.span :: m.args.map Argument.span

/-- Every offset of the tree fits into 64 bits. -/
def Node.Fits (n : Node) : Prop := ∀ s ∈ n.spans, s.Fits

/-- Every offset of the argument fits into 64 bits. -/
def Argument.Fits : Argument → Prop
  | .literal _ span => span.Fits
  | .expr node => node.Fits

theorem Node.mem_spans {n : Node} {s : Span} :
    s ∈ n.spans ↔ (s = n.commandSpan ∨ s = n.span ∨ ∃ arg ∈ n.args, arg.span = s) ∨
      ∃ child, Argument.expr child ∈ n.args ∧ s ∈ child.spans := by
  simp only [Node.spans, List.mem_flatMap, Node.mem_nodes (n := n), List.mem_cons, List.mem_map]
  constructor
  · rintro ⟨m, rfl | ⟨child, hchild, hm⟩, hs⟩
    · exact .inl hs
    · exact .inr ⟨child, hchild, m, hm, hs⟩
  · rintro (hs | ⟨child, hchild, m, hm, hs⟩)
    · exact ⟨n, .inl rfl, hs⟩
    · exact ⟨m, .inr ⟨child, hchild, hm⟩, hs⟩

theorem Argument.Fits.span {arg : Argument} (h : arg.Fits) : arg.span.Fits := by
  cases arg with
  | literal text span => exact h
  | expr n => exact h _ (Node.mem_spans.2 (.inl (.inr (.inl rfl))))

/-- A tree fits if its own spans and its arguments do. -/
theorem Node.fits_iff {n : Node} :
    n.Fits ↔ n.commandSpan.Fits ∧ n.span.Fits ∧ ∀ arg ∈ n.args, arg.Fits := by
  constructor
  · intro h
    refine ⟨h _ (Node.mem_spans.2 (.inl (.inl rfl))),
      h _ (Node.mem_spans.2 (.inl (.inr (.inl rfl)))), fun arg harg => ?_⟩
    cases arg with
    | literal text span => exact h _ (Node.mem_spans.2 (.inl (.inr (.inr ⟨_, harg, rfl⟩))))
    | expr child => exact fun s hs => h s (Node.mem_spans.2 (.inr ⟨child, harg, hs⟩))
  · rintro ⟨hcommand, hspan, hargs⟩ s hs
    rcases Node.mem_spans.1 hs with (rfl | rfl | ⟨arg, harg, rfl⟩) | ⟨child, hchild, hs⟩
    · exact hcommand
    · exact hspan
    · exact (hargs arg harg).span
    · exact hargs _ hchild s hs

/-! ### The members of a node -/

/-- The members of an object say what the node is. Other members may stand beside them. -/
structure Node.DescribedBy (n : Node) (fields : List (String × Json)) : Prop where
  command : Json.field? "command" fields = some (.str (String.ofList n.command))
  commandSpan : Json.field? "command_span" fields = some n.commandSpan.toJson
  args : Json.field? "args" fields = some (.arr (n.args.map Argument.toJson))
  span : Json.field? "span" fields = some n.span.toJson
  /-- The mark of dropped arguments stands only where it is set. -/
  droppedArgs :
    Json.field? "dropped_args" fields = if n.droppedArgs then some (.bool true) else none

/-- The members of an object say what the argument is, and which kind it is of. -/
def Argument.DescribedBy (fields : List (String × Json)) : Argument → Prop
  | .literal text span =>
    Json.field? "kind" fields = some (.str "literal") ∧
      Json.field? "text" fields = some (.str (String.ofList text)) ∧
      Json.field? "span" fields = some span.toJson
  | .expr node => Json.field? "kind" fields = some (.str "expr") ∧ node.DescribedBy fields

theorem argsToJson_eq (args : List Argument) : argsToJson args = args.map Argument.toJson := by
  induction args with
  | nil => rw [argsToJson, List.map_nil]
  | cons arg rest ih => rw [argsToJson, ih, List.map_cons]

theorem Node.describedBy_fields (n : Node) : n.DescribedBy n.fields := by
  obtain ⟨command, commandSpan, args, span, droppedArgs⟩ := n
  rw [Node.fields, argsToJson_eq]
  constructor <;> cases droppedArgs <;> simp [Json.field?]

/-- The mark of its kind may stand in front of the members of a node. -/
theorem Node.DescribedBy.cons_kind {n : Node} {fields : List (String × Json)}
    (h : n.DescribedBy fields) (value : Json) : n.DescribedBy (("kind", value) :: fields) := by
  obtain ⟨hcommand, hcommandSpan, hargs, hspan, hdropped⟩ := h
  constructor <;> simp [Json.field?_cons, *]

theorem Node.nodup_keys (n : Node) : ("kind" :: n.fields.map Prod.fst).Nodup := by
  obtain ⟨command, commandSpan, args, span, droppedArgs⟩ := n
  rw [Node.fields]
  cases droppedArgs <;> simp

/-- The object for an argument says what the argument is, and says no member twice. -/
theorem Argument.exists_describedBy (arg : Argument) :
    ∃ fields, arg.toJson = .obj fields ∧ (fields.map Prod.fst).Nodup ∧ arg.DescribedBy fields := by
  cases arg with
  | literal text span =>
    exact ⟨_, by rw [Argument.toJson], by simp, by simp [Argument.DescribedBy, Json.field?_cons]⟩
  | expr n =>
    refine ⟨("kind", .str "expr") :: n.fields, by rw [Argument.toJson], n.nodup_keys, ?_⟩
    exact ⟨by simp [Json.field?_cons], n.describedBy_fields.cons_kind _⟩

/-! ### Reading -/

theorem argsOfFields?_eq (fields : List (String × Json)) :
    argsOfFields? fields = (Json.field? "args" fields).bind argsOfJson? := by
  induction fields with
  | nil => rw [argsOfFields?]; rfl
  | cons field rest ih =>
    obtain ⟨key, value⟩ := field
    rw [argsOfFields?, Json.field?_cons]
    split_ifs
    · rfl
    · exact ih

/-- The items of an array are read one by one, and all of them have to be arguments. -/
theorem argsOfItems?_eq_some_iff {items : List Json} {args : List Argument} :
    argsOfItems? items = some args ↔
      List.Forall₂ (fun item arg => Argument.ofJson? item = some arg) items args := by
  induction items generalizing args with
  | nil =>
    rw [argsOfItems?, List.forall₂_nil_left_iff, Option.some.injEq, eq_comm]
  | cons item items ih =>
    rw [argsOfItems?, List.forall₂_cons_left_iff]
    simp only [Option.bind_eq_bind, Option.bind_eq_some_iff, Option.pure_def, Option.some.injEq, ih]
    constructor
    · rintro ⟨arg, harg, rest, hrest, rfl⟩
      exact ⟨arg, rest, harg, hrest, rfl⟩
    · rintro ⟨arg, rest, harg, hrest, rfl⟩
      exact ⟨arg, harg, rest, hrest, rfl⟩

/-- The arguments of a node are read back from its members, if objects that describe them are. -/
theorem argsOfFields?_of_describedBy {n : Node} {fields : List (String × Json)}
    (h : n.DescribedBy fields)
    (hargs : ∀ arg ∈ n.args, ∀ members, arg.DescribedBy members →
      Argument.ofJson? (.obj members) = some arg) :
    argsOfFields? fields = some n.args := by
  rw [argsOfFields?_eq, h.args, Option.bind_some, argsOfJson?, argsOfItems?_eq_some_iff,
    List.forall₂_map_left_iff, List.forall₂_same]
  intro arg harg
  obtain ⟨members, htoJson, -, hmembers⟩ := arg.exists_describedBy
  rw [htoJson]
  exact hargs arg harg members hmembers

theorem Node.ofFields?_of_describedBy {n : Node} {fields : List (String × Json)}
    (h : n.DescribedBy fields) (hfits : n.Fits) : Node.ofFields? fields n.args = some n := by
  obtain ⟨hcommand, hspan, -⟩ := Node.fits_iff.1 hfits
  obtain ⟨command, commandSpan, args, span, droppedArgs⟩ := n
  unfold Node.ofFields?
  rw [h.command, h.commandSpan, h.span, h.droppedArgs]
  cases droppedArgs <;>
    simp [Node.ofParts?, Json.str?, Json.bool?, Span.ofJson?_toJson hcommand,
      Span.ofJson?_toJson hspan]

/-- **An object that describes an argument is read as that argument**, whatever else it holds. -/
theorem Argument.ofJson?_of_describedBy {arg : Argument} {fields : List (String × Json)}
    (h : arg.DescribedBy fields) (hfits : arg.Fits) :
    Argument.ofJson? (.obj fields) = some arg := by
  induction arg using Argument.induction generalizing fields with
  | literal text span =>
    obtain ⟨hkind, htext, hspan⟩ := h
    rw [Argument.ofJson?, hkind]
    simp [htext, hspan, Argument.literalOf?, Json.str?, Span.ofJson?_toJson hfits]
  | expr n ih =>
    obtain ⟨hkind, hnode⟩ := h
    have hargs := argsOfFields?_of_describedBy hnode fun arg harg members hmembers =>
      ih arg harg hmembers ((Node.fits_iff.1 hfits).2.2 arg harg)
    rw [Argument.ofJson?, hkind]
    simp [hargs, Node.ofFields?_of_describedBy hnode hfits]

/-- **An object that describes a node is read as that node**, whatever else it holds. -/
theorem Node.ofJson?_of_describedBy {n : Node} {fields : List (String × Json)}
    (h : n.DescribedBy fields) (hfits : n.Fits) : Node.ofJson? (.obj fields) = some n := by
  have hargs := argsOfFields?_of_describedBy h fun arg harg members hmembers =>
    Argument.ofJson?_of_describedBy hmembers ((Node.fits_iff.1 hfits).2.2 arg harg)
  simp [Node.ofJson?, hargs, Node.ofFields?_of_describedBy h hfits]

/-! ### What is read fits -/

theorem exists_items_of_argsOfJson? {j : Json} {args : List Argument}
    (h : argsOfJson? j = some args) : ∃ items, argsOfItems? items = some args := by
  cases j with
  | arr items => exact ⟨items, by rwa [argsOfJson?] at h⟩
  | _ => simp [argsOfJson?] at h

theorem exists_item_of_mem {items : List Json} {args : List Argument}
    (h : argsOfItems? items = some args) {arg : Argument} (harg : arg ∈ args) :
    ∃ item, Argument.ofJson? item = some arg := by
  induction argsOfItems?_eq_some_iff.1 h with
  | nil => exact absurd harg List.not_mem_nil
  | cons hitem hitems ih =>
    rcases List.mem_cons.1 harg with rfl | harg
    · exact ⟨_, hitem⟩
    · exact ih (argsOfItems?_eq_some_iff.2 hitems) harg

/-- A node that is put together from parts has spans that fit, and no mark of dropped arguments
unless there is one among the parts. -/
theorem Node.of_ofParts? {command commandSpan span : Json} {args : List Argument}
    {dropped : Option Json} {n : Node}
    (h : Node.ofParts? command commandSpan args span dropped = some n) :
    n.args = args ∧ n.commandSpan.Fits ∧ n.span.Fits ∧
      (dropped = none → n.droppedArgs = false) := by
  unfold Node.ofParts? at h
  cases dropped <;>
    simp only [Option.bind_eq_bind, Option.bind_eq_some_iff, Option.pure_def, Option.some.injEq]
      at h
  · obtain ⟨_, rfl, _, -, cs, hcs, sp, hsp, rfl⟩ := h
    exact ⟨rfl, Span.fits_of_ofJson? hcs, Span.fits_of_ofJson? hsp, fun _ => rfl⟩
  · obtain ⟨_, -, _, -, cs, hcs, sp, hsp, rfl⟩ := h
    exact ⟨rfl, Span.fits_of_ofJson? hcs, Span.fits_of_ofJson? hsp, nofun⟩

/-- A value that is read as a node has its parts: as the members of an object or as the items of an
array. -/
theorem Node.exists_parts_of_ofJson? {j : Json} {n : Node} (h : Node.ofJson? j = some n) :
    ∃ command commandSpan items span dropped, argsOfItems? items = some n.args ∧
      Node.ofParts? command commandSpan n.args span dropped = some n ∧
      ∀ fields, j = .obj fields → dropped = Json.field? "dropped_args" fields := by
  unfold Node.ofJson? at h
  split at h
  · next fields =>
    rw [argsOfFields?_eq] at h
    simp only [Node.ofFields?, Option.bind_eq_bind, Option.bind_eq_some_iff] at h
    obtain ⟨args, ⟨value, -, hargs⟩, command, -, commandSpan, -, span, -, hparts⟩ := h
    obtain ⟨items, hitems⟩ := exists_items_of_argsOfJson? hargs
    obtain ⟨rfl, -⟩ := Node.of_ofParts? hparts
    exact ⟨_, _, items, _, _, hitems, hparts, by rintro _ ⟨⟩; rfl⟩
  · next items =>
    unfold Node.ofItems? at h
    split at h
    · next command commandSpan value span dropped =>
      simp only [Option.bind_eq_bind, Option.bind_eq_some_iff] at h
      obtain ⟨args, hargs, hparts⟩ := h
      obtain ⟨items, hitems⟩ := exists_items_of_argsOfJson? hargs
      split at hparts
      · obtain ⟨rfl, -⟩ := Node.of_ofParts? hparts
        exact ⟨_, _, items, _, _, hitems, hparts, nofun⟩
      · obtain ⟨rfl, -⟩ := Node.of_ofParts? hparts
        exact ⟨_, _, items, _, _, hitems, hparts, nofun⟩
      · cases hparts
    · cases h
  · cases h

theorem Argument.fits_of_literalOf? {text span : Json} {arg : Argument}
    (h : Argument.literalOf? text span = some arg) :
    ∃ text span, arg = .literal text span ∧ span.Fits := by
  simp only [Argument.literalOf?, Option.bind_eq_bind, Option.bind_eq_some_iff, Option.pure_def,
    Option.some.injEq] at h
  obtain ⟨_, -, sp, hsp, rfl⟩ := h
  exact ⟨_, sp, rfl, Span.fits_of_ofJson? hsp⟩

/-- A value that is read as an argument is read as a literal whose span fits, or its parts behind
the kind are read as a node. -/
theorem Argument.of_ofJson? {j : Json} {arg : Argument} (h : Argument.ofJson? j = some arg) :
    (∃ text span, arg = .literal text span ∧ span.Fits) ∨
      ∃ node value, arg = .expr node ∧ Node.ofJson? value = some node := by
  unfold Argument.ofJson? at h
  split at h
  · next fields =>
    split at h
    · simp only [Option.bind_eq_bind, Option.bind_eq_some_iff] at h
      obtain ⟨_, -, _, -, hliteral⟩ := h
      exact .inl (Argument.fits_of_literalOf? hliteral)
    · simp only [Option.bind_eq_bind, Option.bind_eq_some_iff] at h
      obtain ⟨args, hargs, hexpr⟩ := h
      obtain ⟨node, hnode, rfl⟩ := Option.map_eq_some_iff.1 hexpr
      exact .inr ⟨node, .obj fields, rfl, by simp [Node.ofJson?, hargs, hnode]⟩
    · cases h
  · exact .inl (Argument.fits_of_literalOf? h)
  · next items =>
    obtain ⟨node, hnode, rfl⟩ := Option.map_eq_some_iff.1 h
    exact .inr ⟨node, .arr items, rfl, by simpa [Node.ofJson?] using hnode⟩
  · cases h

/-- **Every tree that is read fits.** -/
theorem Node.fits_of_ofJson? {j : Json} {n : Node} (h : Node.ofJson? j = some n) : n.Fits := by
  induction n using Node.induction generalizing j with
  | node n ih =>
    obtain ⟨_, _, items, _, _, hitems, hparts, -⟩ := Node.exists_parts_of_ofJson? h
    obtain ⟨-, hcommand, hspan, -⟩ := Node.of_ofParts? hparts
    refine Node.fits_iff.2 ⟨hcommand, hspan, fun arg harg => ?_⟩
    obtain ⟨item, hitem⟩ := exists_item_of_mem hitems harg
    rcases Argument.of_ofJson? hitem with ⟨text, span, rfl, hfits⟩ | ⟨child, value, rfl, hvalue⟩
    · exact hfits
    · exact ih child harg hvalue

/-- **The JSON form of trees loses nothing.** The object for a node, and the one for an argument,
says no member twice, and its members say what the node or the argument is. It is read back as the
same tree exactly if all offsets fit into 64 bits. Whatever value is read as a tree, writing that
tree and reading it again gives the same tree. Where the mark of dropped arguments is absent, no
argument was dropped. -/
theorem Node.json_round_trip :
    (∀ n : Node,
      ∃ fields, n.toJson = .obj fields ∧ (fields.map Prod.fst).Nodup ∧ n.DescribedBy fields) ∧
    (∀ arg : Argument,
      ∃ fields, arg.toJson = .obj fields ∧ (fields.map Prod.fst).Nodup ∧ arg.DescribedBy fields) ∧
    (∀ n : Node, Node.ofJson? n.toJson = some n ↔ ∀ s ∈ n.spans, s.Fits) ∧
    (∀ (j : Json) (n : Node), Node.ofJson? j = some n → Node.ofJson? n.toJson = some n) ∧
    ∀ (fields : List (String × Json)) (n : Node), Node.ofJson? (.obj fields) = some n →
      Json.field? "dropped_args" fields = none → n.droppedArgs = false := by
  have hwritten : ∀ n : Node, n.Fits → Node.ofJson? n.toJson = some n := fun n hfits =>
    Node.ofJson?_of_describedBy n.describedBy_fields hfits
  refine ⟨fun n => ⟨n.fields, rfl, ?_, n.describedBy_fields⟩, Argument.exists_describedBy,
    fun n => ⟨Node.fits_of_ofJson?, hwritten n⟩, fun j n h => hwritten n (Node.fits_of_ofJson? h),
    fun fields n h hnone => ?_⟩
  · exact (List.nodup_cons.1 n.nodup_keys).2
  · obtain ⟨_, _, _, _, dropped, -, hparts, hdropped⟩ := Node.exists_parts_of_ofJson? h
    obtain ⟨-, -, -, hunmarked⟩ := Node.of_ofParts? hparts
    exact hunmarked ((hdropped fields rfl).trans hnone)

/-- Members in another order, one that says nothing, a span and an expression given as arrays, and
a mark of dropped arguments below the root. -/
theorem Node.json_round_trip_mixed :
    let j : Json := .obj
      [("span", .arr [.nat 1, .nat 14]), ("note", .null), ("dropped_args", .bool false),
        ("args", .arr
          [.arr [.str "expr", .str "neg", .arr [.nat 6, .nat 9], .arr [], .arr [.nat 6, .nat 10],
            .bool true],
          .obj [("text", .str "é\n"), ("span", (Span.mk 12 14).toJson), ("kind", .str "literal")]]),
        ("command_span", (Span.mk 1 4).toJson), ("command", .str "add")]
    let n : Node :=
      ⟨"add".toList, ⟨1, 4⟩, [.expr ⟨"neg".toList, ⟨6, 9⟩, [], ⟨6, 10⟩, true⟩,
        .literal "é\n".toList ⟨12, 14⟩], ⟨1, 14⟩, false⟩
    Node.ofJson? j = some n ∧ Node.ofJson? n.toJson = some n := by
  intro j n
  have hread : Node.ofJson? j = some n := by rfl
  exact ⟨hread, Node.json_round_trip.2.2.2.1 j n hread⟩

end GraphTex
