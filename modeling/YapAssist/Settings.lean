import YapAssist.Text.Basic

/-!
# Settings

What a project may choose: the width of the indentation, the module that math functions are
imported from, and the extensions of source files.
-/

namespace YapAssist

/-- The choices of a project. -/
structure Settings where
  /-- Blanks for each level of indentation. -/
  indentWidth : Nat
  /-- The module that math functions are imported from. -/
  stdModule : Text
  /-- The extensions of source files, without the dot. -/
  extensions : List Text
  deriving DecidableEq, Repr

namespace Settings

/-- The settings of a project that chooses nothing. -/
def default : Settings := ⟨4, "std/Math".toList, ["yap".toList]⟩

end Settings

end YapAssist
