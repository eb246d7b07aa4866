import YapAssist.Disk.Path
import YapAssist.Fault
import YapAssist.Sorting

/-!
# Directory trees

The contents of a disk as a value: a listing of named files and directories, each directory with
a listing of its own. A name is a string of bytes, which need not be a text. There are no links, so
a path is followed name by name, `..` leads back to the directory above, and every file has one path
of names.

* `Listing`, what a directory holds;
* `Listing.follow`, the names that a path leads to;
* `Listing.read`, the text of the file at a path;
* `Listing.write`, a listing with the contents of one file replaced.
-/

namespace YapAssist

/-- What a file holds: a text, or bytes that are no text. -/
inductive Content where
  | text (t : Text)
  | bytes (b : Bytes)
  deriving DecidableEq, Repr

/-- The contents of a file with the given bytes. -/
def Content.ofBytes (b : ByteArray) : Content :=
  match String.fromUTF8? b with
  | some s => .text s.toList
  | none => .bytes b.toList

/-- What a directory holds, one entry after the other. -/
inductive Listing where
  | nil
  | file (name : Bytes) (content : Content) (rest : Listing)
  | dir (name : Bytes) (entries rest : Listing)
  deriving DecidableEq, Repr

/-- A single entry. -/
inductive Node where
  | file (content : Content)
  | dir (entries : Listing)
  deriving DecidableEq, Repr

namespace Listing

/-- The entry with a given name. -/
def find? (name : Bytes) : Listing → Option Node
  | nil => none
  | file n content rest => if n = name then some (.file content) else find? name rest
  | dir n entries rest => if n = name then some (.dir entries) else find? name rest

/-- The entry at the end of a list of names; the listing itself for no names. -/
def at? (l : Listing) : (names : List Bytes) → Option Node
  | [] => some (.dir l)
  | [name] => l.find? name
  | name :: names =>
    match l.find? name with
    | some (.dir entries) => entries.at? names
    | _ => none

/-- The names that segments lead to, from the directory with the names `here`. -/
def followFrom (root : Listing) (here : List Bytes) :
    (segments : List Bytes) → Except ReadFault (List Bytes)
  | [] => .ok here
  | segment :: segments =>
    match root.at? here with
    | some (.dir entries) =>
      if segment.isEmpty || segment == [Path.dot] then followFrom root here segments
      else if segment == [Path.dot, Path.dot] then followFrom root here.dropLast segments
      else
        match entries.find? segment with
        | some _ => followFrom root (here ++ [segment]) segments
        | none => .error .missing
    | some (.file _) => .error .notDirectory
    | none => .error .missing

/-- The names that an absolute path leads to. -/
def follow (root : Listing) (path : Bytes) : Except ReadFault (List Bytes) :=
  followFrom root [] (Path.segments path)

/-- The entry that an absolute path leads to. -/
def node? (root : Listing) (path : Bytes) : Option Node :=
  match root.follow path with
  | .ok names => root.at? names
  | .error _ => none

/-- Whether an absolute path leads to an entry. -/
def holds (root : Listing) (path : Bytes) : Bool := (root.node? path).isSome

/-- Whether an absolute path leads to a file. -/
def isFile (root : Listing) (path : Bytes) : Bool :=
  match root.node? path with
  | some (.file _) => true
  | _ => false

/-- The text of the file that an absolute path leads to. -/
def read (root : Listing) (path : Bytes) : Except ReadFault Text :=
  match root.follow path with
  | .error fault => .error fault
  | .ok names =>
    match root.at? names with
    | some (.file (.text t)) => .ok t
    | some (.file (.bytes _)) => .error .notText
    | some (.dir _) => .error .directory
    | none => .error .missing

/-- The listing of a single file inside the directories named before it. -/
def single (content : Content) : (names : List Bytes) → Listing
  | [] => nil
  | [name] => file name content nil
  | name :: names => dir name (single content names) nil

/-- A listing with the file at the end of a list of names added, or its contents replaced. -/
def write (names : List Bytes) (content : Content) : Listing → Listing
  | nil => single content names
  | file n old rest =>
    if names = [n] then file n content rest else file n old (write names content rest)
  | dir n entries rest =>
    match names with
    | name :: next :: more =>
      if name = n then dir n (write (next :: more) content entries) rest
      else dir n entries (write names content rest)
    | _ => dir n entries (write names content rest)

/-- A listing with the directories of a list of names, where they are missing. -/
def makeDir : (names : List Bytes) → Listing → Listing
  | [], l => l
  | name :: names, nil => dir name (makeDir names nil) nil
  | name :: names, file n content rest => file n content (makeDir (name :: names) rest)
  | name :: names, dir n entries rest =>
    if name = n then dir n (makeDir names entries) rest
    else dir n entries (makeDir (name :: names) rest)

/-- All files of a listing with their names, below the directory with the names `above`. -/
def filesBelow (above : List Bytes) : Listing → List (List Bytes × Content)
  | nil => []
  | file n content rest => (above ++ [n], content) :: filesBelow above rest
  | dir n entries rest => filesBelow (above ++ [n]) entries ++ filesBelow above rest

/-- The files of `after` that `before` lacks or holds with other contents, in the order of their
paths. -/
def changes (before after : Listing) : List (Bytes × Content) :=
  let changed := (filesBelow [] after).filter fun entry =>
    before.at? entry.1 != some (.file entry.2)
  sortBy (fun a b => a.1 ≤ b.1) (changed.map fun entry => (Path.ofNames entry.1, entry.2))

end Listing

end YapAssist
