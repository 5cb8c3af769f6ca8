import GraphTex.Json
import GraphTex.Node

/-!
# Trees as JSON

A span is an object with `start` and `end`, a node an object with its parts, an argument an object
whose `kind` says whether it is a literal or an expression. The mark of dropped arguments is written
only where it is set. When trees are read back, unknown members are ignored, and every record may
also stand as the array of its parts in order.
-/

namespace GraphTex

/-- A span as a JSON object. -/
def Span.toJson (s : Span) : Json := .obj [("start", .nat s.start), ("end", .nat s.stop)]

/-- The span that a JSON value stands for. -/
def Span.ofJson? : Json → Option Span
  | .obj fields => do
    let start ← (← Json.field? "start" fields).word?
    let stop ← (← Json.field? "end" fields).word?
    pure ⟨start, stop⟩
  | .arr [start, stop] => do pure ⟨← start.word?, ← stop.word?⟩
  | _ => none

mutual

/-- The members of the object for a node. -/
def Node.fields : Node → List (String × Json)
  | ⟨command, commandSpan, args, span, droppedArgs⟩ =>
    [("command", .str (String.ofList command)), ("command_span", commandSpan.toJson),
      ("args", .arr (argsToJson args)), ("span", span.toJson)] ++
      if droppedArgs then [("dropped_args", .bool true)] else []

/-- An argument as a JSON object. -/
def Argument.toJson : Argument → Json
  | .literal text span =>
    .obj [("kind", .str "literal"), ("text", .str (String.ofList text)), ("span", span.toJson)]
  | .expr node => .obj (("kind", .str "expr") :: node.fields)

/-- Arguments as JSON objects. -/
def argsToJson : List Argument → List Json
  | [] => []
  | arg :: args => arg.toJson :: argsToJson args

end

/-- A node as a JSON object. -/
def Node.toJson (n : Node) : Json := .obj n.fields

/-- The literal with the given parts, if they have the right types. -/
def Argument.literalOf? (text span : Json) : Option Argument := do
  pure (.literal (← text.str?).toList (← Span.ofJson? span))

/-- The node with the given parts, if they have the right types. The mark of dropped arguments may
be absent. -/
def Node.ofParts? (command commandSpan : Json) (args : List Argument) (span : Json)
    (dropped : Option Json) : Option Node := do
  let droppedArgs ←
    match dropped with
    | none => some false
    | some mark => mark.bool?
  pure
    { command := (← command.str?).toList
      commandSpan := ← Span.ofJson? commandSpan
      args
      span := ← Span.ofJson? span
      droppedArgs }

/-- The node with the given members beside its arguments. -/
def Node.ofFields? (fields : List (String × Json)) (args : List Argument) : Option Node := do
  Node.ofParts? (← Json.field? "command" fields) (← Json.field? "command_span" fields) args
    (← Json.field? "span" fields) (Json.field? "dropped_args" fields)

mutual

/-- The argument that a JSON value stands for. -/
def Argument.ofJson? : Json → Option Argument
  | .obj fields =>
    match Json.field? "kind" fields with
    | some (.str "literal") => do
      Argument.literalOf? (← Json.field? "text" fields) (← Json.field? "span" fields)
    | some (.str "expr") => do
      let args ← argsOfFields? fields
      (Node.ofFields? fields args).map .expr
    | _ => none
  | .arr [.str "literal", text, span] => Argument.literalOf? text span
  | .arr (.str "expr" :: items) => (Node.ofItems? items).map .expr
  | _ => none

/-- The node whose parts are the items of an array. -/
def Node.ofItems? : List Json → Option Node
  | command :: commandSpan :: args :: span :: dropped => do
    let args ← argsOfJson? args
    match dropped with
    | [] => Node.ofParts? command commandSpan args span none
    | [mark] => Node.ofParts? command commandSpan args span (some mark)
    | _ => none
  | _ => none

/-- The arguments that an array stands for. -/
def argsOfJson? : Json → Option (List Argument)
  | .arr items => argsOfItems? items
  | _ => none

/-- The arguments that the items of an array stand for. -/
def argsOfItems? : List Json → Option (List Argument)
  | [] => some []
  | item :: items => do
    let arg ← Argument.ofJson? item
    let args ← argsOfItems? items
    pure (arg :: args)

/-- The arguments among the members of the object for a node. -/
def argsOfFields? : List (String × Json) → Option (List Argument)
  | [] => none
  | (key, value) :: fields => if key = "args" then argsOfJson? value else argsOfFields? fields

end

/-- The node that a JSON value stands for. -/
def Node.ofJson? : Json → Option Node
  | .obj fields => do
    let args ← argsOfFields? fields
    Node.ofFields? fields args
  | .arr items => Node.ofItems? items
  | _ => none

end GraphTex
