import YapAssist.Workspace.Source

/-!
# Files in memory

A store holds texts by name, in the order in which the names first came. Replacing a text does not
move it. A host adds what can happen to a store while it is searched: files that cannot be read,
and a file whose reading cancels the search.
-/

namespace YapAssist

/-- Texts by file name, in the order in which the names first came. -/
structure Store where
  files : List (FileId × Text)
  deriving DecidableEq, Repr

namespace Store

/-- The store without files. -/
def empty : Store := ⟨[]⟩

/-- The files with the text of `file` replaced, or added at the end. -/
def put (file : FileId) (text : Text) : List (FileId × Text) → List (FileId × Text)
  | [] => [(file, text)]
  | entry :: rest => if entry.1 = file then (file, text) :: rest else entry :: put file text rest

/-- The store with a file added, or its text replaced. -/
def insert (store : Store) (file : FileId) (text : Text) : Store := ⟨put file text store.files⟩

/-- The names of the files, in order. -/
def candidates (store : Store) : List FileId := store.files.map Prod.fst

/-- The text of a file. -/
def find? (store : Store) (file : FileId) : Option Text := store.files.lookup file

/-- The text of a file, or the fault that there is no such file. -/
def read (store : Store) (file : FileId) : Except Fault Text :=
  match store.find? file with
  | some text => .ok text
  | none => .error (.unknownFile file)

end Store

/-- A store together with what can happen while it is read. -/
structure Host where
  store : Store
  /-- The files that cannot be read. -/
  locked : List FileId
  /-- The file whose reading cancels the search. -/
  trigger : Option FileId
  /-- Whether the search has been cancelled. -/
  cancelled : Bool
  deriving DecidableEq, Repr

namespace Host

/-- A host without files. -/
def empty : Host := ⟨.empty, [], none, false⟩

/-- What is read from a file, and the host afterwards. The trigger acts before the read fails or
succeeds. -/
def read (file : FileId) (host : Host) : Except Fault Text × Host :=
  let text :=
    if host.locked.contains file then .error (.other "permission denied".toList)
    else host.store.read file
  (text, { host with cancelled := host.cancelled || host.trigger == some file })

/-- The workspace of a host. -/
def source (host : Host) : Source Host := ⟨host.store.candidates, read, cancelled⟩

/-- The host with a file added, or its text replaced. -/
def insert (host : Host) (file : FileId) (text : Text) : Host :=
  { host with store := host.store.insert file text }

/-- The host with a file that cannot be read from now on. -/
def lock (host : Host) (file : FileId) : Host := { host with locked := file :: host.locked }

/-- The host after cancelling the search. -/
def cancel (host : Host) : Host := { host with cancelled := true }

/-- The host that cancels the search when `file` is read. -/
def cancelOnRead (host : Host) (file : FileId) : Host := { host with trigger := some file }

/-- The host ready for a new search. -/
def renew (host : Host) : Host := { host with trigger := none, cancelled := false }

end Host

end YapAssist
