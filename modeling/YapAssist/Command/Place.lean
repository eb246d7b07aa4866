import YapAssist.Disk.Path
import YapAssist.Position
import YapAssist.Text.Numeral

/-!
# Places on the command line

A place is written `path:line:column` or `path:line`, lines and columns counted from one. A path
may hold colons itself: the place is read from its end, and a piece before the last one that is no
number belongs to the path.

* `Place.read`, the path and the position of a written place;
* `Place.write`, a path and a position as a written place.
-/

namespace YapAssist

/-- Why a place cannot be read. -/
inductive PlaceFault where
  /-- There is no colon in it. -/
  | noLine (place : Text)
  /-- Its line is no number from one on. -/
  | badLine (value place : Text)
  /-- Its column is no number from one on. -/
  | badColumn (value place : Text)
  deriving DecidableEq, Repr

/-- The wording of a fault. -/
def PlaceFault.message : PlaceFault → Text
  | noLine place => "Expected <file>:<line>[:<column>], got '".toList ++ place ++ ['\'']
  | badLine value place =>
    "Invalid line '".toList ++ value ++ "' in '".toList ++ place ++ ['\'']
  | badColumn value place =>
    "Invalid column '".toList ++ value ++ "' in '".toList ++ place ++ ['\'']

namespace Place

/-- A number counted from one, counted from zero. -/
def index? (value : Text) : Option Nat :=
  match Numeral.read? Numeral.max32 value with
  | some (n + 1) => some n
  | _ => none

/-- A place cut into its path, its line and, if it has one, its column. -/
def cut? (place : Text) : Option (Text × Text × Option Text) :=
  (Text.cutAtLast? ':' place).map fun (front, last) =>
    match Text.cutAtLast? ':' front with
    | some (path, middle) =>
      if (Numeral.read? Numeral.max32 middle).isSome then (path, middle, some last)
      else (front, last, none)
    | none => (front, last, none)

/-- The path and the position of a written place. A column left out is the first one. -/
def read (place : Text) : Except PlaceFault (Text × Position) :=
  match cut? place with
  | none => .error (.noLine place)
  | some (path, lineText, columnText?) =>
    match index? lineText with
    | none => .error (.badLine lineText place)
    | some line =>
      match columnText? with
      | none => .ok (path, ⟨line, 0⟩)
      | some columnText =>
        match index? columnText with
        | none => .error (.badColumn columnText place)
        | some column => .ok (path, ⟨line, column⟩)

/-- A number counted from zero as it is written, counted from one in words of 32 bits. -/
def writeIndex (n : Nat) : Text := Numeral.write ((n + 1) % UInt32.size)

/-- A path and a position as a written place. The path is shown relative to the current directory
when it lies below it. -/
def write (currentDir : Bytes) (path : Text) (p : Position) : Text :=
  Path.display currentDir path.bytes ++ ':' :: writeIndex p.line ++ ':' :: writeIndex p.character

end Place

end YapAssist
