import YapAssist.Text.Blank
import YapAssist.Text.Word

/-!
# Kinds of lines

What a line is follows from how it begins, blanks aside. The kinds are tried in the order of
`Line.Kind`: a line that could be two of them is the first. Two more questions decide the
indentation: whether a line begins with a closing bracket and whether it ends with an opening one.
-/

namespace YapAssist.Line

/-- What a single line holds. -/
inductive Kind where
  | blank
  | comment
  | importAll
  | importNamed
  | header
  | other
  deriving DecidableEq, Repr

/-- Whether a line holds blanks only. -/
def isBlankLine (line : Text) : Bool := line.trim.isEmpty

/-- Whether a line holds a comment only. -/
def isComment (line : Text) : Bool := line.trim.startsWith ['/', '/']

/-- Whether a line begins with the word `import`. -/
def isImport (line : Text) : Bool := (afterWord? ['i', 'm', 'p', 'o', 'r', 't'] line.trim).isSome

/-- Whether a text begins with `export`, a gap and the word `fn`. -/
def beginsExportedFn (text : Text) : Bool :=
  match Text.after? ['e', 'x', 'p', 'o', 'r', 't'] text with
  | some rest => rest.head?.any isBlank && (afterWord? ['f', 'n'] rest.trimStart).isSome
  | none => false

/-- Whether a line begins a block: with `if`, `else`, `while`, `fn` or `export fn`. -/
def isHeader (line : Text) : Bool :=
  let text := line.trim
  (afterWord? ['i', 'f'] text).isSome || (afterWord? ['e', 'l', 's', 'e'] text).isSome ||
    (afterWord? ['w', 'h', 'i', 'l', 'e'] text).isSome || (afterWord? ['f', 'n'] text).isSome ||
    beginsExportedFn text

/-- The kind of a line. -/
def kind (line : Text) : Kind :=
  if isBlankLine line then .blank
  else if isComment line then .comment
  else if isImport line then
    match Text.after? ['i', 'm', 'p', 'o', 'r', 't'] line.trim with
    | some rest => if rest.trimStart.head? == some '{' then .importNamed else .importAll
    | none => .importAll
  else if isHeader line then .header
  else .other

/-- Whether a line begins with a closing bracket. -/
def startsClosing (line : Text) : Bool :=
  line.trim.head?.any fun c => c == '}' || c == ']' || c == ')'

/-- Whether a line ends with an opening bracket. Import lines open nothing. -/
def endsOpening (line : Text) : Bool :=
  !isImport line && line.trim.getLast?.any fun c => c == '{' || c == '[' || c == '('

end YapAssist.Line
