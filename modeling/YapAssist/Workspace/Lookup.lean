import YapAssist.Symbol.BuiltIn
import YapAssist.Symbol.Documentation
import YapAssist.Workspace.Source

/-!
# Looking a name up

A name is looked up in the text at hand first and then in the rest of the workspace, if there is
one. Documentation knows the built-in words before either. An editor asks by position: the name is
the one that touches it.
-/

namespace YapAssist.Lookup

variable {σ : Type}

/-- Where `name` is declared: in the text of the file `current`, or elsewhere in the workspace. -/
def definition (current : FileId) (text name : Text) (source : Option (Source σ)) (s : σ) :
    Outcome σ Location :=
  match Declaration.find? text name with
  | some p => .idle (some ⟨current, p⟩) s
  | none =>
    match source with
    | some source => source.locate name (some current) s
    | none => .idle none s

/-- The documentation of a declaration found in a workspace. -/
def describeHit (name : Text) (hit : Hit) : Option Text :=
  (Declaration.find? hit.text name).map (Documentation.describe hit.text name)

/-- The documentation of `name`: built in, declared in the text, or declared elsewhere in the
workspace apart from the file `current`. -/
def documentation (text name stdModule : Text) (current : Option FileId)
    (source : Option (Source σ)) (s : σ) : Outcome σ Text :=
  match BuiltIn.find? name with
  | some b => .idle (some (b.markdown stdModule)) s
  | none =>
    match Declaration.find? text name with
    | some p => .idle (some (Documentation.describe text name p)) s
    | none =>
      match source with
      | some source => (source.search name current s).bind (describeHit name)
      | none => .idle none s

/-- Where the name at a position is declared. -/
def definitionAt (current : FileId) (text : Text) (p : Position) (source : Option (Source σ))
    (s : σ) : Outcome σ Location :=
  match p.wordAt? text with
  | some name => definition current text name source s
  | none => .idle none s

/-- The documentation of the name at a position in the file `current`. -/
def documentationAt (current : FileId) (text : Text) (p : Position) (stdModule : Text)
    (source : Option (Source σ)) (s : σ) : Outcome σ Text :=
  match p.wordAt? text with
  | some name => documentation text name stdModule (some current) source s
  | none => .idle none s

end YapAssist.Lookup
