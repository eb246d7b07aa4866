import YapAssist.Json.Reader
import YapAssist.Settings

/-!
# Reading settings

Settings are written as a JSON object; keys it does not know are skipped, keys left out keep their
default, and a key given twice is refused. The same three values in a JSON array, in the order of
`Settings`, are accepted as well; values left out at its end keep their default.
-/

namespace YapAssist.Settings

/-- A width: a whole number of 64 bits, written with digits only. -/
def width? : Json → Option Nat
  | .number literal => Numeral.readDigits? Numeral.max64 literal
  | _ => none

/-- A text. -/
def text? : Json → Option Text
  | .string t => t
  | _ => none

/-- A list of texts. -/
def texts? : Json → Option (List Text)
  | .array items => items.mapM text?
  | _ => none

/-- The settings found so far; `none` for what has not been given. -/
structure Draft where
  indentWidth : Option Nat
  stdModule : Option Text
  extensions : Option (List Text)

/-- The settings with one more field; refused when the field is given already or malformed. -/
def Draft.add? (p : Draft) (field : Option Text × Json) : Option Draft :=
  match field.1 with
  | none => none
  | some key =>
    if key = "indent_width".toList then
      if p.indentWidth.isSome then none
      else (width? field.2).map fun v => { p with indentWidth := some v }
    else if key = "std_module".toList then
      if p.stdModule.isSome then none
      else (text? field.2).map fun v => { p with stdModule := some v }
    else if key = "extensions".toList then
      if p.extensions.isSome then none
      else (texts? field.2).map fun v => { p with extensions := some v }
    else some p

/-- Settings with what has not been given taken from the default. -/
def Draft.complete (p : Draft) : Settings :=
  ⟨p.indentWidth.getD default.indentWidth, p.stdModule.getD default.stdModule,
    p.extensions.getD default.extensions⟩

/-- The keys of the fields in the order of an array. -/
def keysInOrder : List Text := ["indent_width".toList, "std_module".toList, "extensions".toList]

/-- The settings that a JSON value holds. -/
def ofJson? : Json → Option Settings
  | .object fields => (fields.foldlM Draft.add? ⟨none, none, none⟩).map Draft.complete
  | .array items =>
    if items.length ≤ keysInOrder.length then
      ((keysInOrder.map some).zip items |>.foldlM Draft.add? ⟨none, none, none⟩).map
        Draft.complete
    else none
  | _ => none

/-- The settings that a text writes. -/
def read? (t : Text) : Option Settings := (Json.read? t).bind ofJson?

end YapAssist.Settings
