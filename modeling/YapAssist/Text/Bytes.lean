import YapAssist.Text.Basic

/-!
# Bytes

A disk knows strings of bytes, such as the names of files; texts are their readings in UTF-8. A
string of bytes need not be a text, so there are two readings:

* `Text.bytes`, the bytes of a text;
* `Text.ofBytes?`, the text with the given bytes, if they are those of a text;
* `Text.lossy`, the bytes as they are shown, each stray sequence replaced by one character.
-/

namespace YapAssist

/-- A string of bytes. -/
abbrev Bytes := List UInt8

namespace Text

/-- The bytes of a text in UTF-8. -/
def bytes (t : Text) : Bytes := t.flatMap String.utf8EncodeChar

/-- The text with the given bytes; `none` if they are not those of a text. -/
def ofBytes? (b : Bytes) : Option Text := (String.fromUTF8? b.toByteArray).map String.toList

/-- The character that stands for bytes that are no character. -/
def stray : Char := '\uFFFD'

/-- Whether a byte goes on with a character. -/
def isContinuation (b : UInt8) : Bool := 0x80 ≤ b && b ≤ 0xBF

/-- Whether two bytes can begin a character of three or four bytes. -/
def canBegin (first second : UInt8) : Bool :=
  if first = 0xE0 then 0xA0 ≤ second && second ≤ 0xBF
  else if first = 0xED then 0x80 ≤ second && second ≤ 0x9F
  else if first = 0xF0 then 0x90 ≤ second && second ≤ 0xBF
  else if first = 0xF4 then 0x80 ≤ second && second ≤ 0x8F
  else 0xE1 ≤ first && first ≤ 0xF3 && isContinuation second

/-- The length of the stray sequence at the beginning of bytes that begin with no character: as much
as could have begun one. -/
def strayLength : Bytes → Nat
  | first :: second :: rest =>
    if !canBegin first second then 1
    else if 0xF0 ≤ first && rest.head?.any isContinuation then 3
    else 2
  | _ => 1

/-- The reading of bytes behind the first `skip`, which belong to the character before. -/
def lossyFrom : (skip : Nat) → Bytes → Text
  | _, [] => []
  | skip + 1, _ :: rest => lossyFrom skip rest
  | 0, b :: rest =>
    match (b :: rest).toByteArray.utf8DecodeChar? 0 with
    | some c => c :: lossyFrom (c.utf8Size - 1) rest
    | none => stray :: lossyFrom (strayLength (b :: rest) - 1) rest

/-- Bytes as they are shown: their characters, with `stray` for each stray sequence. -/
def lossy (b : Bytes) : Text := lossyFrom 0 b

end Text

end YapAssist
