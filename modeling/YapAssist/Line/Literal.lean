import YapAssist.Text.Blank

/-!
# String literals and trailing comments

A string literal is delimited by double quotes. A quote delimits unless an odd run of backslashes
stands directly before it, and `//` starts a comment unless it lies inside a literal.

* `delimiterOffsets`, the byte offsets of the delimiting quotes of a line;
* `insideString`, whether a byte offset lies inside a literal;
* `Line.split`, a line cut into its code and its trailing comment.
-/

namespace YapAssist

/-- Whether `c`, read directly after the characters `before` (nearest first), opens or closes a
string literal. -/
def isDelimiter (before : Text) (c : Char) : Bool :=
  c == '"' && (before.takeWhile (· == '\\')).length % 2 == 0

/-- The byte offsets of the delimiting quotes of `rest`, which starts at byte `offset` after the
characters `before` (nearest first). -/
def delimiterOffsetsFrom (before : Text) (offset : Nat) : (rest : Text) → List Nat
  | [] => []
  | c :: rest =>
    let later := delimiterOffsetsFrom (c :: before) (offset + c.utf8Size) rest
    if isDelimiter before c then offset :: later else later

/-- The byte offsets of the delimiting quotes of a line. -/
def delimiterOffsets (line : Text) : List Nat := delimiterOffsetsFrom [] 0 line

/-- Whether the byte `offset` of a line lies inside a string literal: an odd number of delimiting
quotes stands before it. -/
def insideString (line : Text) (offset : Nat) : Bool :=
  (delimiterOffsets line).countP (· < offset) % 2 == 1

/-- A line as it is read by every rule about code. -/
structure Line where
  /-- What stands before the trailing comment, without blanks at its end. -/
  code : Text
  /-- The trailing comment from its `//` on, without blanks at its end; empty if there is none. -/
  comment : Text
  deriving DecidableEq, Repr

namespace Line

/-- The cut of `rest` at its first `//` outside a literal: the characters before it (nearest
first) and the comment. The scan starts after the characters `before`, inside a literal when
`quoted`. -/
def cutFrom? (before : Text) (quoted : Bool) : (rest : Text) → Option (Text × Text)
  | [] => none
  | c :: rest =>
    if isDelimiter before c then cutFrom? (c :: before) (!quoted) rest
    else if !quoted && c == '/' && rest.head? == some '/' then some (before, c :: rest)
    else cutFrom? (c :: before) quoted rest

/-- A line cut into its code and its trailing comment. -/
def split (line : Text) : Line :=
  match cutFrom? [] false line with
  | some (before, comment) => ⟨Text.trimEnd before.reverse, comment.trimEnd⟩
  | none => ⟨line.trimEnd, []⟩

/-- A code text with a comment put back behind it. -/
def attach (code comment : Text) : Text :=
  if comment.isEmpty then code else code ++ ' ' :: comment

end Line

end YapAssist
