import YapAssist.Text.Numeral

/-!
# JSON values

Values as they are read from settings and printed as answers. A number is kept as it is written. A
string that is no Unicode text, because it holds half a surrogate pair, has no characters: it can
be skipped but not used.

`Json.pretty` prints a value over several lines, two blanks for each level.
-/

namespace YapAssist

/-- A JSON value. Fields keep their order and may repeat a key. -/
inductive Json where
  | null
  | bool (value : Bool)
  | number (literal : Text)
  | string (text? : Option Text)
  | array (items : List Json)
  | object (fields : List (Option Text × Json))

namespace Json

/-- A string value. -/
def ofText (t : Text) : Json := string (some t)

/-- A number value. -/
def ofNat (n : Nat) : Json := number (Numeral.write n)

/-- An object with the given fields. -/
def ofFields (fields : List (String × Json)) : Json :=
  object (fields.map fun field => (some field.1.toList, field.2))

/-- A character inside a printed string: control characters, quote and backslash are escaped. -/
def escape (c : Char) : Text :=
  if c = '"' then ['\\', '"']
  else if c = '\\' then ['\\', '\\']
  else if c = '\n' then ['\\', 'n']
  else if c = '\r' then ['\\', 'r']
  else if c = '\t' then ['\\', 't']
  else if c.toNat = 0x08 then ['\\', 'b']
  else if c.toNat = 0x0C then ['\\', 'f']
  else if c.toNat < 0x10 then ['\\', 'u', '0', '0', '0'] ++ Nat.toDigits 16 c.toNat
  else if c.toNat < 0x20 then ['\\', 'u', '0', '0'] ++ Nat.toDigits 16 c.toNat
  else [c]

/-- A text as a printed string. -/
def quote (t : Text) : Text := '"' :: t.flatMap escape ++ ['"']

/-- The beginning of a line at a level. -/
def newLine (level : Nat) : Text := '\n' :: List.replicate (2 * level) ' '

/-- Items between brackets, each on a line of its own one level further in. -/
def enclose (left right : Char) (level : Nat) (items : List Text) : Text :=
  if items.isEmpty then [left, right]
  else
    left :: Text.joinWith [','] (items.map (newLine (level + 1) ++ ·)) ++ newLine level ++ [right]

mutual

/-- A value printed at a level of indentation. -/
def prettyAt (level : Nat) : Json → Text
  | null => "null".toList
  | bool true => "true".toList
  | bool false => "false".toList
  | number literal => literal
  | string text? => quote (text?.getD [])
  | array items => enclose '[' ']' level (prettyItems (level + 1) items)
  | object fields => enclose '{' '}' level (prettyFields (level + 1) fields)

/-- The items of an array, printed. -/
def prettyItems (level : Nat) : List Json → List Text
  | [] => []
  | item :: items => prettyAt level item :: prettyItems level items

/-- The fields of an object, printed. -/
def prettyFields (level : Nat) : List (Option Text × Json) → List Text
  | [] => []
  | (key, value) :: fields =>
    (quote (key.getD []) ++ [':', ' '] ++ prettyAt level value) :: prettyFields level fields

end

/-- A value printed over several lines. -/
def pretty (value : Json) : Text := prettyAt 0 value

end Json

end YapAssist
