import YapAssist.Line.Kind
import YapAssist.Line.Literal
import YapAssist.Position

/-!
# Declarations

A function `f` is declared where the code of a line reads `fn f`, or `export fn f`, as words of
their own and outside string literals. Comments declare nothing.

* `Declaration.size?`, the size of a declaration at the beginning of a text;
* `Declaration.columns`, the declarations of a line of code from left to right, not overlapping;
* `Declaration.find?`, the first declaration of a text.
-/

namespace YapAssist.Declaration

/-- What follows a word and a gap. -/
def afterWordGap? (word text : Text) : Option Text :=
  (Text.after? word text).bind fun rest =>
    if rest.head?.any isBlank then some rest.trimStart else none

/-- What follows `fn name` at the beginning of a text. -/
def afterFn? (name text : Text) : Option Text :=
  (afterWordGap? ['f', 'n'] text).bind (afterWord? name)

/-- What follows `fn name` or `export fn name` at the beginning of a text. -/
def after? (name text : Text) : Option Text :=
  ((afterWordGap? ['e', 'x', 'p', 'o', 'r', 't'] text).bind (afterFn? name)).or (afterFn? name text)

/-- The number of characters of the declaration at the beginning of `text`, which follows the
character `before`. A declaration starts a word. -/
def size? (name : Text) (before : Option Char) (text : Text) : Option Nat :=
  if before.any isWord then none
  else (after? name text).map fun rest => text.length - rest.length

/-- The columns at which a declaration starts in `rest`, which follows the character `before` at
`column`; the first `skip` characters belong to the declaration before. -/
def columnsFrom (name : Text) (before : Option Char) (skip column : Nat) :
    (rest : Text) → List Nat
  | [] => []
  | c :: rest =>
    match skip with
    | skip + 1 => columnsFrom name (some c) skip (column + 1) rest
    | 0 =>
      match size? name before (c :: rest) with
      | some size => column :: columnsFrom name (some c) (size - 1) (column + 1) rest
      | none => columnsFrom name (some c) 0 (column + 1) rest

/-- The columns at which a declaration of `name` starts in a line of code, from left to right. -/
def columns (name code : Text) : List Nat := columnsFrom name none 0 0 code

/-- The column of the first declaration of `name` outside string literals in a line of code. -/
def inCode? (name code : Text) : Option Nat :=
  (columns name code).find? fun column => !insideString code (Text.byteSize (code.take column))

/-- The column of the first declaration of `name` in a line. -/
def inLine? (name line : Text) : Option Nat :=
  if Line.isComment line then none else inCode? name (Line.split line).code

/-- The first declaration of `name` in a list of lines, the first of which has number `index`. -/
def inLines? (name : Text) (index : Nat) : List Text → Option Position
  | [] => none
  | line :: lines =>
    match inLine? name line with
    | some column => some ⟨index, column⟩
    | none => inLines? name (index + 1) lines

/-- The place of the first declaration of `name` in a text; `none` when there is none, or `name` is
no name of a function. The pattern of a declaration is taken to compile for every such name: a limit
on the size of compiled patterns, past which nothing would be found, is left out. -/
def find? (text name : Text) : Option Position :=
  if isIdentifier name then inLines? name 0 text.lines else none

end YapAssist.Declaration
