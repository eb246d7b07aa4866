import YapAssist.Line.Kind
import YapAssist.Position

/-!
# Import clauses

A text brings in names of other modules by import statements, `import "m";` for all of them or
`import { a, b } from "m";` for some. A statement starts on a line that begins with `import` and
may go on over further lines; its semicolon is optional. A line that looks like an import and does
not go on as a statement is no clause.

* `Import.Statement.read?`, the statement at the beginning of a text;
* `Import.clauses`, all clauses of a text with their places.
-/

namespace YapAssist.Import

/-- An import statement as it stands at the beginning of a text. -/
structure Statement where
  /-- The module between its quotes. -/
  module : Text
  /-- The list between the braces and all that follows the opening brace; `none` for an import of
  all names. -/
  list? : Option (Text × Text)
  /-- What follows the statement. -/
  rest : Text
  deriving DecidableEq, Repr

/-- A quoted module behind blanks, and what follows its closing quote. -/
def quoted? (t : Text) : Option (Text × Text) :=
  (Text.after? ['"'] t.trimStart).bind fun t =>
    (Text.after? ['"'] (t.dropWhile (· != '"'))).map fun rest => (t.takeWhile (· != '"'), rest)

/-- What follows an optional semicolon; blanks before it belong to it. -/
def afterSemicolon (t : Text) : Text := (Text.after? [';'] t.trimStart).getD t

/-- What follows the word `import` at the beginning of a line; it may be indented by spaces and
tabs. -/
def afterImport? (t : Text) : Option Text :=
  Text.after? ['i', 'm', 'p', 'o', 'r', 't'] (t.dropWhile fun c => c == ' ' || c == '\t')

/-- An import of listed names. -/
def readNamed? (t : Text) : Option Statement :=
  (afterImport? t).bind fun t =>
    (Text.after? ['{'] t.trimStart).bind fun inside =>
      (Text.after? ['}'] (inside.dropWhile (· != '}'))).bind fun t =>
        (Text.after? ['f', 'r', 'o', 'm'] t.trimStart).bind fun t =>
          (quoted? t).map fun found =>
            ⟨found.1, some (inside.takeWhile (· != '}'), inside), afterSemicolon found.2⟩

/-- An import of all names. -/
def readAll? (t : Text) : Option Statement :=
  ((afterImport? t).bind quoted?).map fun found => ⟨found.1, none, afterSemicolon found.2⟩

/-- The import statement at the beginning of a text. -/
def Statement.read? (t : Text) : Option Statement := (readNamed? t).or (readAll? t)

/-- What a clause brings in. -/
inductive Names where
  /-- All names of the module. -/
  | all
  /-- The listed names, with the place where a further one goes and the place of the closing
  brace. -/
  | listed (symbols : List Text) (listEnd closeBrace : Position)
  deriving DecidableEq, Repr

/-- An import statement of a text with the lines it covers. -/
structure Clause where
  module : Text
  names : Names
  /-- The line that the word `import` is on. -/
  line : Nat
  /-- The line that the statement ends on. -/
  endLine : Nat
  deriving DecidableEq, Repr

/-- The clause of a statement found at byte `start` of `text`, at the beginning of `line`; `found`
is the rest of the text from there on. -/
def Clause.ofStatement (text : Text) (start line : Nat) (found : Text) (s : Statement) : Clause :=
  let offsetOf (rest : Text) : Nat := start + (found.byteSize - rest.byteSize)
  { module := s.module
    names :=
      match s.list? with
      | none => .all
      | some (list, inside) =>
        .listed list.listItems
          (Position.ofOffset text (offsetOf inside + list.trimEnd.byteSize))
          (Position.ofOffset text (offsetOf inside + list.byteSize))
    line := line
    endLine := (Position.ofOffset text (offsetOf s.rest)).line }

/-- The clauses that start in `blocks`, the blocks of `text` from the beginning of `line` on, which
lies at byte `start`. -/
def clausesFrom (text : Text) (start line : Nat) : (blocks : List Text) → List Clause
  | [] => []
  | block :: blocks =>
    let later := clausesFrom text (start + block.byteSize) (line + 1) blocks
    if Line.isImport block then
      let found := (block :: blocks).flatten
      match Statement.read? found with
      | some s => Clause.ofStatement text start line found s :: later
      | none => later
    else later

/-- All import clauses of a text, in order. -/
def clauses (text : Text) : List Clause := clausesFrom text 0 0 text.blocks

/-- A module path without blanks around it and without the suffix of source files. -/
def moduleStem (path : Text) : Text :=
  (Text.before? ['.', 'y', 'a', 'p'] path.trim).getD path.trim

/-- Whether two module paths name the same module. -/
def sameModule (a b : Text) : Bool := moduleStem a == moduleStem b

end YapAssist.Import
