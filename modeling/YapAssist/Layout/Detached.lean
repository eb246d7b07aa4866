import YapAssist.Block.Parts

/-!
# Detached braces

An opening brace on a line of its own belongs to the header above it. It moves up to that header;
blank and comment lines in between stay where they are. A brace that no header waits for stays on
its line.
-/

namespace YapAssist.Layout

/-- Whether a line is laid out verbatim: blank, or a comment only. -/
def isVerbatim (line : Text) : Bool := Line.isBlankLine line || Line.isComment line

/-- Whether a line of code ends in a header that still lacks its opening brace. -/
def awaitsBrace (line : Text) : Bool :=
  (Block.parts (Line.split line.trim).code).getLast?.any fun last =>
    Line.isHeader last && !Line.endsOpening last

/-- The lines above a detached brace, nearest first, with the brace joined to the nearest line of
code; `none` when that line does not wait for a brace. -/
def attachBrace? : (above : List Text) → Option (List Text)
  | [] => none
  | line :: above =>
    if isVerbatim line then (attachBrace? above).map (line :: ·)
    else if awaitsBrace line then some (joinBrace line :: above)
    else none

/-- The lines read so far, nearest first, after one more line. -/
def addLine (above : List Text) (line : Text) : List Text :=
  if line.trim = ['{'] then (attachBrace? above).getD (line :: above) else line :: above

/-- The lines of a text with every detached brace joined to the header that waits for it. -/
def joinDetached (lines : List Text) : List Text := (lines.foldl addLine []).reverse

end YapAssist.Layout
