import YapAssist.Text.Basic

/-!
# Faults

Malformed texts are never a fault: they have no edit, no declaration, no documentation. What can go
wrong is reading a file and reading the settings. Each fault is a cause; `Fault.message` is its
wording.
-/

namespace YapAssist

/-- Why the contents of a file could not be read. -/
inductive ReadFault where
  | missing
  | notDirectory
  | directory
  | notText
  deriving DecidableEq, Repr

/-- The wording of a failed read. -/
def ReadFault.message : ReadFault → Text
  | missing => "No such file or directory (os error 2)".toList
  | notDirectory => "Not a directory (os error 20)".toList
  | directory => "Is a directory (os error 21)".toList
  | notText => "stream did not contain valid UTF-8".toList

/-- What can go wrong around a text. -/
inductive Fault where
  /-- A file could not be read. -/
  | unreadable (cause : ReadFault)
  /-- The settings in the file at `path` are malformed. -/
  | settings (path : Text)
  /-- A workspace holds no file of that name. -/
  | unknownFile (file : Text)
  /-- Anything else, in the words of the host. -/
  | other (words : Text)
  deriving DecidableEq, Repr

/-- The wording of a fault. -/
def Fault.message : Fault → Text
  | unreadable cause => "IO error: ".toList ++ cause.message
  | settings path => "Configuration error: Failed to parse ".toList ++ path
  | unknownFile file => "File not found in workspace: ".toList ++ file
  | other words => words

end YapAssist
