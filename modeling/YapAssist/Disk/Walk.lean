import YapAssist.Disk.Tree
import YapAssist.Settings
import YapAssist.Sorting
import YapAssist.Workspace.Source

/-!
# Source files below a directory

A directory is walked depth first, its entries in the order of their names, the contents of a
directory at its place. Entries whose name is a text that begins with a dot are left out together
with all they hold; the directory the walk starts from may have any name. What remains are the files
with one of the extensions of the settings.

A directory on a disk is a workspace: its source files, in the order of the walk, read on demand. A
workspace knows a file by its path as it is shown.
-/

namespace YapAssist

/-- Whether a path has one of the extensions of source files; an extension that is no text is none
of them. -/
def Settings.isSource (settings : Settings) (path : Bytes) : Bool :=
  ((Path.extension? path).bind Text.ofBytes?).any settings.extensions.contains

namespace Listing

/-- Whether an entry is left out of a walk: its name is a text and begins with a dot. A name that is
no text is kept, whatever its first byte. -/
def isHidden (name : Bytes) : Bool := (Text.ofBytes? name).any fun t => t.head? == some '.'

/-- Entries in the order of their names, each replaced by what was found in it. -/
def inOrder (found : List (Bytes × List Bytes)) : List Bytes :=
  (sortBy (fun a b => a.1 ≤ b.1) found).flatMap Prod.snd

/-- For each entry of a listing its name and the paths of the source files in it; the listing is
that of the directory at `path`. -/
def sourcesByName (settings : Settings) (path : Bytes) : Listing → List (Bytes × List Bytes)
  | nil => []
  | file name _ rest =>
    let here := Path.join path name
    (name, if !isHidden name && settings.isSource here then [here] else []) ::
      sourcesByName settings path rest
  | dir name entries rest =>
    let inside := inOrder (sourcesByName settings (Path.join path name) entries)
    (name, if isHidden name then [] else inside) :: sourcesByName settings path rest

/-- The source files below the directory at `path`, whose listing is `l`. -/
def sourcesIn (settings : Settings) (path : Bytes) (l : Listing) : List Bytes :=
  inOrder (sourcesByName settings path l)

/-- The source files at or below a path. -/
def sources (root : Listing) (settings : Settings) (path : Bytes) : List Bytes :=
  match root.node? path with
  | some (.dir entries) => sourcesIn settings path entries
  | some (.file _) => if settings.isSource path then [path] else []
  | none => []

/-- The files that a path on the command line stands for: a directory for the source files below
it, anything else for itself, whatever its extension. -/
def collect (root : Listing) (settings : Settings) (path : Bytes) : List Bytes :=
  match root.node? path with
  | some (.dir entries) => sourcesIn settings path entries
  | _ => [path]

/-- The workspace of the source files at or below a path. Nothing cancels its searches. -/
def workspace (root : Listing) (settings : Settings) (path : Bytes) : Source Unit where
  candidates := (root.sources settings path).map Text.lossy
  read := fun file s => ((root.read (Text.bytes file)).mapError .unreadable, s)
  cancelled := fun _ => false

end Listing

end YapAssist
