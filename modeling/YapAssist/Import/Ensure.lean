import YapAssist.Edit
import YapAssist.Import.Clause

/-!
# Making a name visible

The edit that imports a name from a module. Nothing is done when the module is imported as a whole
or the name is listed already. A list of the module's names is extended at its end; otherwise a
clause of its own goes behind the last import statement at the outer level, or to the top.
-/

namespace YapAssist.Import

/-- The symbols and the list end of each clause that lists names. -/
def listed (cs : List Clause) : List (List Text × Position) :=
  cs.filterMap fun c =>
    match c.names with
    | .all => none
    | .listed symbols listEnd _ => some (symbols, listEnd)

/-- Whether a line stands at the outer level: it exists and is not indented. -/
def isOuter (lines : List Text) (index : Nat) : Bool :=
  (lines[index]?).any fun line => !line.head?.any isBlank

/-- The clause that imports one name. -/
def clauseText (symbol module : Text) : Text :=
  "import \x7b ".toList ++ symbol ++ " \x7d from \"".toList ++ module ++ "\";".toList

/-- The last line of the import statements at the outer level. -/
def lastOuterLine? (lines : List Text) (cs : List Clause) : Option Nat :=
  ((cs.filter fun c => isOuter lines c.line).map Clause.endLine).max?

/-- The edit that adds a clause of its own. -/
def addClause (text symbol module : Text) (cs : List Clause) : Edit :=
  let ending := (LineEnding.ofText text).text
  let clause := clauseText symbol module
  let anchor := (lastOuterLine? text.lines cs).bind fun index =>
    (text.lines[index]?).map fun line => Position.lineEnd line index
  match anchor with
  | some p => .insert p (ending ++ clause)
  | none => .insert .start (if text.isEmpty then clause else clause ++ ending)

/-- The edits that make `symbol` of `module` visible in a text. -/
def ensure (text symbol module : Text) : List Edit :=
  if !isIdentifier symbol then []
  else
    let cs := clauses text
    let ours := cs.filter fun c => sameModule c.module module
    if ours.any fun c => c.names == .all then []
    else
      match listed ours with
      | [] => [addClause text symbol module cs]
      | (symbols, listEnd) :: others =>
        if symbols.contains symbol || others.any fun o => o.1.contains symbol then []
        else [.insert listEnd ((if symbols.isEmpty then [' '] else [',', ' ']) ++ symbol)]

end YapAssist.Import
