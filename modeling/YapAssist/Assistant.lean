import YapAssist.Layout.Edit
import YapAssist.Settings
import YapAssist.Symbol.Completion
import YapAssist.Workspace.Lookup

/-!
# The assistant

What an editor asks for and the settings of a project decide: formatting, documentation, imports
and completion. Where a name is declared does not depend on settings (`Lookup.definitionAt`).
-/

namespace YapAssist.Settings

variable {σ : Type}

/-- The edit that lays a text out; `none` when it is laid out already. -/
def formatEdit? (settings : Settings) (text : Text) : Option Edit :=
  Layout.edit? settings.indentWidth text

/-- The documentation of the name at a position in the file `current`. -/
def documentation (settings : Settings) (current : FileId) (text : Text) (p : Position)
    (source : Option (Source σ)) (s : σ) : Outcome σ Text :=
  Lookup.documentationAt current text p settings.stdModule source s

/-- The edits that import a name from the standard module. -/
def importEdits (settings : Settings) (text symbol : Text) : List Edit :=
  Import.ensure text symbol settings.stdModule

/-- The words offered in a text. -/
def completions (settings : Settings) (text : Text) : List Completion.Item :=
  Completion.items text settings.stdModule

end YapAssist.Settings
