import YapAssist.Text.Basic

/-!
# Lines

A text is cut after each line feed. What is read from a line depends on the reader:

* `Text.blocks` keeps every character, terminators included, so the blocks join to the text;
* `Text.lines` drops the line feed and one carriage return directly before it;
* `Text.columns` drops the line feed and every carriage return before it: the part of a block in
  which a column can lie.
-/

namespace YapAssist

namespace Text

/-- A text cut after each line feed. -/
def blocks : Text → List Text
  | [] => []
  | c :: rest =>
    if c = '\n' then [c] :: blocks rest
    else
      match blocks rest with
      | [] => [[c]]
      | block :: more => (c :: block) :: more

/-- Nothing is lost by cutting a text into blocks. -/
@[simp] theorem flatten_blocks (t : Text) : (blocks t).flatten = t := by
  induction t with
  | nil => rfl
  | cons c t ih =>
    rw [blocks]
    split
    · simp [ih]
    · cases h : blocks t with
      | nil => rw [h] at ih; simp at ih; simp [← ih]
      | cons b bs => rw [h] at ih; simpa using ih

/-- A block without its line feed and one carriage return before that. -/
def withoutTerminator (block : Text) : Text :=
  match block.reverse with
  | '\n' :: '\r' :: before => before.reverse
  | '\n' :: before => before.reverse
  | _ => block

/-- The lines of a text. A line feed at the end starts no further line. -/
def lines (t : Text) : List Text := (blocks t).map withoutTerminator

/-- A text without the carriage returns it ends with. -/
def dropReturns (t : Text) : Text := (t.reverse.dropWhile (· == '\r')).reverse

/-- The part of a block in which a column can lie. -/
def columns (block : Text) : Text :=
  dropReturns (block.reverse.dropWhile (· == '\n')).reverse

/-- Whether some line feed of a text has a carriage return directly before it. -/
def hasReturnFeed : Text → Bool
  | '\r' :: '\n' :: _ => true
  | _ :: rest => hasReturnFeed rest
  | [] => false

end Text

/-- What separates the lines of a text. -/
inductive LineEnding where
  | feed
  | returnFeed
  deriving DecidableEq, Repr

namespace LineEnding

/-- The characters of a line ending. -/
def text : LineEnding → Text
  | feed => ['\n']
  | returnFeed => ['\r', '\n']

/-- The line ending a text uses: carriage return and line feed as soon as one line has both. -/
def ofText (t : Text) : LineEnding := if t.hasReturnFeed then returnFeed else feed

end LineEnding

end YapAssist
