import YapAssist.Layout.Detached
import YapAssist.Text.Lines

/-!
# Rows of a laid out text

The layout of a text is a list of rows: a verbatim line, or a piece of code with its level of
indentation and the comment that stays behind it. Levels follow the brackets: a row that begins
with a closing bracket is one level further out, and after a row that ends with an opening bracket
the next rows are one level further in. The level never drops below zero.

* `Layout.rows`, the rows of a list of lines;
* `Layout.format`, a text laid out with a given width of indentation.
-/

namespace YapAssist.Layout

/-- One line of a laid out text. -/
inductive Row where
  /-- A blank line or a comment line, kept as it is. -/
  | verbatim (line : Text)
  /-- A piece of code at a level of indentation, with the comment behind it. -/
  | code (level : Nat) (part comment : Text)
  deriving DecidableEq, Repr

/-- The line a row stands for, with `width` blanks for each level. -/
def Row.text (width : Nat) : Row → Text
  | verbatim line => line
  | code level part comment => List.replicate (level * width) ' ' ++ Line.attach part comment

/-- The level at which a piece of code stands, coming from `level`. -/
def levelAt (level : Nat) (part : Text) : Nat :=
  if Line.startsClosing part then level - 1 else level

/-- The level after a piece of code that stands at `level`. -/
def levelAfter (level : Nat) (part : Text) : Nat :=
  if Line.endsOpening part then level + 1 else level

/-- The rows of the parts of one line, coming from `level`, and the level after them. The comment
of the line stays behind its last part. -/
def partRows (comment : Text) (level : Nat) : List Text → List Row × Nat
  | [] => ([], level)
  | [part] =>
    let here := levelAt level part
    ([.code here part comment], levelAfter here part)
  | part :: parts =>
    let here := levelAt level part
    let later := partRows comment (levelAfter here part) parts
    (.code here part [] :: later.1, later.2)

/-- The rows of one line, coming from `level`, and the level after them. -/
def lineRows (level : Nat) (line : Text) : List Row × Nat :=
  if isVerbatim line then ([.verbatim line], level)
  else
    let cut := Line.split line.trim
    partRows cut.comment level (Block.parts cut.code)

/-- The rows of a list of lines, coming from `level`. -/
def rowsFrom (level : Nat) : List Text → List Row
  | [] => []
  | line :: lines =>
    let done := lineRows level line
    done.1 ++ rowsFrom done.2 lines

/-- The rows of a text. -/
def rows (text : Text) : List Row := rowsFrom 0 (joinDetached text.lines)

/-- A text laid out with `width` blanks for each level. Its line ending and a line feed at its end
are kept. -/
def format (width : Nat) (text : Text) : Text :=
  let ending := (LineEnding.ofText text).text
  let body := Text.joinWith ending ((rows text).map (Row.text width))
  if text.getLast? == some '\n' then body ++ ending else body

end YapAssist.Layout
