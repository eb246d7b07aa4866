import YapAssist.Text.Lines
import YapAssist.Text.Word

/-!
# Positions

A position names a place in a text by line and column, both counted from zero; columns count
characters. Positions and byte offsets are turned into each other:

* `Position.toOffset`, which stops at the end of the line, or of the text, when the position points
  past it;
* `Position.ofOffset`, which stops at the end of the text;
* `Position.wordAt?`, the name that touches a position.
-/

namespace YapAssist

/-- A place in a text, counted from zero. -/
structure Position where
  line : Nat
  character : Nat
  deriving DecidableEq, Repr, Inhabited

namespace Position

/-- The beginning of every text. -/
def start : Position := ⟨0, 0⟩

/-- The byte offset of a line and a column among blocks of lines. -/
def offsetIn : List Text → (line column : Nat) → Nat
  | [], _, _ => 0
  | block :: _, 0, column => Text.byteSize (block.columns.take column)
  | block :: blocks, line + 1, column => block.byteSize + offsetIn blocks line column

/-- The byte offset of a position. A column past the end of its line stands for that end, and a
line past the last one for the end of the text. -/
def toOffset (text : Text) (p : Position) : Nat := offsetIn text.blocks p.line p.character

/-- The position `offset` bytes after the position `p`, over the characters that follow `p`. Inside
a character the column is lost. -/
def advance (p : Position) : (following : Text) → (offset : Nat) → Position
  | [], _ => p
  | _ :: _, 0 => p
  | c :: following, offset + 1 =>
    if offset + 1 < c.utf8Size then ⟨p.line, 0⟩
    else
      let next := if c = '\n' then ⟨p.line + 1, 0⟩ else ⟨p.line, p.character + 1⟩
      advance next following (offset + 1 - c.utf8Size)

/-- The position of a byte offset. An offset past the end stands for the end of the text. -/
def ofOffset (text : Text) (offset : Nat) : Position := advance start text offset

/-- The position behind the last character of a line, carriage returns at its end aside. -/
def lineEnd (line : Text) (index : Nat) : Position := ⟨index, line.dropReturns.length⟩

/-- A position as editors take it, in words of 32 bits. -/
def words (p : Position) : Position := ⟨p.line % UInt32.size, p.character % UInt32.size⟩

/-- The name at a column of a line, or directly before it: the longest stretch of name characters
on both sides. -/
def nameAt? (line : Text) (column : Nat) : Option Text :=
  let before := ((line.take column).reverse.takeWhile isNameChar).reverse
  let after := (line.drop column).takeWhile isNameChar
  if (before ++ after).isEmpty then none else some (before ++ after)

/-- The name at a position, or directly before it. -/
def wordAt? (text : Text) (p : Position) : Option Text :=
  (text.lines[p.line]?).bind fun line => nameAt? line p.character

end Position

/-- The span between two positions. -/
structure Span where
  first : Position
  last : Position
  deriving DecidableEq, Repr

namespace Span

/-- The empty span at a position. -/
def empty (p : Position) : Span := ⟨p, p⟩

/-- Whether a span is empty. -/
def isEmpty (s : Span) : Bool := s.first == s.last

end Span

end YapAssist
