import YapAssist.Symbol.Declaration

/-!
# Documentation of functions

A declared function is documented by its signature, in a fenced block, and by the comment lines
directly above its declaration.
-/

namespace YapAssist.Documentation

/-- The parameter list of a declaration at the beginning of `text`, as far as the line goes. The
gap before the name is given up blank by blank, from the longest, for names that begin with
blanks. -/
def parameterList? (name text : Text) : Option Text :=
  let fromFn := (Declaration.afterWordGap? ['e', 'x', 'p', 'o', 'r', 't'] text).getD text
  (Text.after? ['f', 'n'] fromFn).bind fun rest =>
    let gap := (rest.takeWhile isBlank).length
    (List.range gap).findSome? fun kept =>
      ((Text.after? name (rest.drop (gap - kept))).bind fun rest =>
        Text.after? ['('] rest.trimStart).map fun inside => inside.takeWhile (· != ')')

/-- The parameters of the function declared at a position, as `a, b, c`; empty when no declaration
stands there. -/
def parameters (text name : Text) (p : Position) : Text :=
  let list := (text.lines[p.line]?).bind fun line =>
    if p.character < line.length then parameterList? name (line.drop p.character) else none
  match list with
  | some list => Text.joinWith [',', ' '] list.listItems
  | none => []

/-- A comment line without its marker, one blank behind it and the blanks at its end. -/
def commentBody (line : Text) : Text :=
  let body := line.trim.drop 2
  ((Text.after? [' '] body).getD body).trimEnd

/-- The comment lines directly above a line, in order, without their markers. -/
def commentAbove (text : Text) (line : Nat) : List Text :=
  (((text.lines.take line).reverse.takeWhile Line.isComment).map commentBody).reverse

/-- A signature in a fenced block, and below it the comment lines. -/
def render (name parameters : Text) (comment : List Text) : Text :=
  "```yap\nfn ".toList ++ name ++ '(' :: parameters ++ ")\n```".toList ++
    if comment.isEmpty then [] else "\n\n".toList ++ Text.joinWith ['\n'] comment

/-- The documentation of the function declared at a position. -/
def describe (text name : Text) (p : Position) : Text :=
  render name (parameters text name p) (commentAbove text p.line)

end YapAssist.Documentation
