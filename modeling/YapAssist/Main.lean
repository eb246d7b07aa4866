import YapAssist.Command.Run

/-!
# The command line

A command runs on a value, so the part of the disk that it can look at is read first: the paths it
names with all that lies below them, and the settings files above them. Afterwards the files that
changed are written back. The operating system gives and takes names as texts here.
-/

namespace YapAssist.Shell

/-- A path as the operating system takes it. -/
def spelled (path : Bytes) : String := String.ofList (Text.lossy path)

/-- The bytes of a name or a path that the operating system gave. -/
def given (s : String) : Bytes := Text.bytes s.toList

/-- Whether something exists at a path. -/
def present (path : Bytes) : IO Bool := do
  try
    discard <| IO.FS.realPath (spelled path)
    return true
  catch _ => return false

/-- The tree with the file or directory at a path of names added, with all it holds. -/
partial def load (root : Listing) (names : List Bytes) : IO Listing := do
  let path ← IO.FS.realPath (spelled (Path.ofNames names))
  if ← path.isDir then
    let mut root := root.makeDir names
    for entry in ← path.readDir do
      root ← load root (names ++ [given entry.fileName])
    return root
  else
    return root.write names (.ofBytes (← IO.FS.readBinFile path))

/-- The names of the file or directory that a path leads to. -/
def realNames (path : Bytes) : IO (List Bytes) := do
  return Path.names (given (← IO.FS.realPath (spelled path)).toString)

/-- The tree with the directories that a path passes through. -/
def loadPassed (root : Listing) (path : Bytes) : IO Listing := do
  let mut root := root
  for above in (Path.ancestors path).drop 1 do
    if ← present above then
      root := root.makeDir (← realNames above)
  return root

/-- The tree with the settings files at and above a path of names. -/
def loadSettings (root : Listing) (names : List Bytes) : IO Listing := do
  let mut root := root
  for dir in Path.ancestors (Path.ofNames names) do
    for name in Listing.settingsNames do
      let file := Path.join dir name
      if ← present file then
        root ← load root (← realNames file)
  return root

/-- The tree with all that a command can look at behind one of its paths. -/
def loadArgument (currentDir : Bytes) (root : Listing) (arg : Bytes) : IO Listing := do
  let path := Path.join currentDir arg
  if ← present path then
    let names ← realNames path
    let root ← loadPassed root path
    let root ← loadSettings root names
    load root names
  else
    loadPassed root path

/-- The paths that a command looks at. -/
def argumentsOf : Command → List Bytes
  | .format paths _ _ => paths.map Text.bytes
  | .definition place root | .hover place root =>
    match Place.read place with
    | .ok (path, _) => (path :: root.toList).map Text.bytes
    | .error _ => []
  | .importName file .. => [file.bytes]
  | .complete file => [file.bytes]

/-- The directory of a file named on the command line, for commands that search it. -/
def searchedBeside (currentDir : Bytes) : Command → IO (List Bytes)
  | .definition place none | .hover place none =>
    match Place.read place with
    | .ok (path, _) => do
      let path := Path.join currentDir path.bytes
      if ← present path then
        return (Path.parent? (Path.ofNames (← realNames path))).toList
      else return []
    | .error _ => return []
  | _ => return []

/-- What is said when arguments make no command. -/
def usage : String :=
  "Usage: <fmt|definition|hover|import|complete> [options] <arguments>"

/-- What is said about a failure: the general sentence, then its causes. -/
def report : List Text → String
  | [] => ""
  | first :: causes =>
    "Error: " ++ String.ofList first ++
      if causes.isEmpty then ""
      else "\n\nCaused by:" ++ String.join (causes.map fun c => "\n    " ++ String.ofList c)

/-- Runs one command on the disk. -/
def perform (command : Command) : IO UInt32 := do
  let currentDir := given (← IO.FS.realPath (← IO.currentDir)).toString
  let paths := argumentsOf command ++ (← searchedBeside currentDir command)
  let root ← paths.foldlM (loadArgument currentDir)
    (Listing.nil.makeDir (Path.names currentDir))
  let run := command.run root currentDir
  for change in root.changes run.root do
    if let .text t := change.2 then
      IO.FS.writeFile (spelled change.1) (String.ofList t)
  (← IO.getStdout).putStr (String.ofList run.stdout)
  unless run.errors.isEmpty do
    (← IO.getStderr).putStrLn (report run.errors)
  return run.exitCode.toUInt32

end YapAssist.Shell

/-- The program. -/
def main (args : List String) : IO UInt32 := do
  match YapAssist.Command.parse (args.map String.toList) with
  | .ok command => YapAssist.Shell.perform command
  | .error refusal =>
    (← IO.getStderr).putStrLn YapAssist.Shell.usage
    return refusal.exitCode.toUInt32
