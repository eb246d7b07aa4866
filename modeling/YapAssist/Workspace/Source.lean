import YapAssist.Fault
import YapAssist.Symbol.Declaration

/-!
# Searching a workspace

A workspace offers files in the order in which they are searched and reads them on demand. Reading
may fail, and it may change the state of the host; in particular the search may be cancelled while
a file is read. The first file that declares the name wins. A cancelled search has no result, also
when the file just read declares the name.

* `Source`, a workspace over a host's state;
* `Outcome`, a result together with the files that were read for it;
* `Source.search`, the first declaration of a name in the files of a workspace.
-/

namespace YapAssist

/-- The name of a file in a workspace, compared as a whole. -/
abbrev FileId := Text

/-- Where a function is declared. -/
structure Location where
  file : FileId
  position : Position
  deriving DecidableEq, Repr

/-- A declaration found in a workspace, with the text it was found in. -/
structure Hit where
  location : Location
  text : Text
  deriving DecidableEq, Repr

/-- A workspace over a host whose state is `σ`. -/
structure Source (σ : Type) where
  /-- The files in the order in which they are searched. -/
  candidates : List FileId
  /-- The text of a file, and the state after reading it. -/
  read : FileId → σ → Except Fault Text × σ
  /-- Whether the search has been cancelled. -/
  cancelled : σ → Bool

/-- A result, the files that were read for it in order, and the state of the host afterwards. -/
structure Outcome (σ α : Type) where
  result : Option α
  reads : List FileId
  state : σ

namespace Outcome

variable {σ α β : Type}

/-- The outcome of not reading anything. -/
def idle (result : Option α) (state : σ) : Outcome σ α := ⟨result, [], state⟩

/-- An outcome with another result. -/
def bind (o : Outcome σ α) (f : α → Option β) : Outcome σ β := ⟨o.result.bind f, o.reads, o.state⟩

end Outcome

namespace Source

variable {σ : Type}

/-- The declaration of `name` in what was read from `file`. -/
def hit? (name : Text) (file : FileId) : Except Fault Text → Option Hit
  | .ok text => (Declaration.find? text name).map fun p => ⟨⟨file, p⟩, text⟩
  | .error _ => none

/-- The search for `name` through a list of files. -/
def searchFrom (source : Source σ) (name : Text) (exclude : Option FileId) :
    (files : List FileId) → σ → Outcome σ Hit
  | [], s => .idle none s
  | file :: files, s =>
    if source.cancelled s then .idle none s
    else if exclude = some file then searchFrom source name exclude files s
    else
      let answer := source.read file s
      match hit? name file answer.1 with
      | some hit => ⟨if source.cancelled answer.2 then none else some hit, [file], answer.2⟩
      | none =>
        let later := searchFrom source name exclude files answer.2
        ⟨later.result, file :: later.reads, later.state⟩

/-- The first declaration of `name` in a workspace, apart from the file `exclude`. -/
def search (source : Source σ) (name : Text) (exclude : Option FileId) (s : σ) : Outcome σ Hit :=
  if isIdentifier name then source.searchFrom name exclude source.candidates s else .idle none s

/-- The place of the first declaration of `name` in a workspace, apart from the file `exclude`. -/
def locate (source : Source σ) (name : Text) (exclude : Option FileId) (s : σ) :
    Outcome σ Location :=
  (source.search name exclude s).bind fun hit => some hit.location

end Source

end YapAssist
