import YapAssist.Json.Value
import YapAssist.Symbol.Completion

/-!
# Answers as JSON

Edits and completion items as JSON values, fields in a fixed order. An item that comes from no
module has no field for it, and an item without edits has none for them.
-/

namespace YapAssist

/-- A position as a JSON value. -/
def Position.toJson (p : Position) : Json :=
  .ofFields [("line", .ofNat p.line), ("character", .ofNat p.character)]

/-- A span as a JSON value. -/
def Span.toJson (s : Span) : Json :=
  .ofFields [("start", s.first.toJson), ("end", s.last.toJson)]

/-- An edit as a JSON value. -/
def Edit.toJson (e : Edit) : Json :=
  .ofFields [("range", e.span.toJson), ("new_text", .ofText e.newText)]

/-- The name of a kind of word. -/
def WordKind.name : WordKind → String
  | .keyword => "keyword"
  | .function => "function"
  | .constant => "constant"
  | .variable => "variable"

/-- A completion item as a JSON value. -/
def Completion.Item.toJson (i : Item) : Json :=
  .ofFields <|
    [ ("label", .ofText i.label),
      ("kind", .ofText i.kind.name.toList),
      ("insert_text", .ofText i.insertText),
      ("detail", .ofText i.detail),
      ("documentation", .ofText i.documentation)] ++
    i.module?.toList.map (fun m => ("module", Json.ofText m)) ++
    if i.additionalEdits.isEmpty then []
    else [("additional_edits", .array (i.additionalEdits.map Edit.toJson))]

end YapAssist
