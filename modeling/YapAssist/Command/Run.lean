import YapAssist.Assistant
import YapAssist.Command.Answer
import YapAssist.Command.Arguments
import YapAssist.Command.Place
import YapAssist.Disk.Settings
import YapAssist.Disk.Walk

/-!
# Running a command

A command runs on a directory tree from a current directory. It prints lines, may replace the
contents of files, and may fail; what it printed and wrote before stays. A failure is told as a
chain of sentences, the general one first.

* `Failure`, what can go wrong, and `Failure.chain`, how it is told;
* `Run`, a command under way;
* `Command.run`, the whole of a command.
-/

namespace YapAssist

/-- Why a command fails. -/
inductive Failure where
  /-- A path leads nowhere. -/
  | notFound (path : Bytes)
  /-- A source file cannot be read. -/
  | unreadable (path : Bytes) (cause : ReadFault)
  /-- The settings cannot be read. -/
  | settings (fault : Fault)
  /-- A place on the command line cannot be read. -/
  | place (fault : PlaceFault)
  | noDefinition
  | noDocumentation
  /-- So many files are not laid out. -/
  | notFormatted (count : Nat)
  deriving DecidableEq, Repr

/-- The sentences that tell a failure, the general one first. -/
def Failure.chain : Failure → List Text
  | notFound path => ["File not found: ".toList ++ Text.lossy path]
  | unreadable path cause => ["Failed to read ".toList ++ Text.lossy path, cause.message]
  | settings (.unreadable cause) => [(Fault.unreadable cause).message, cause.message]
  | settings fault => [fault.message]
  | place fault => [fault.message]
  | noDefinition => ["No definition found".toList]
  | noDocumentation => ["No documentation found".toList]
  | notFormatted count => [Numeral.write count ++ " file(s) would be reformatted".toList]

/-- A command under way: the tree as it is now, the lines printed so far, and the failure that
ended it, if one did. -/
structure Run where
  root : Listing
  printed : List Text
  failure : Option Failure

namespace Run

/-- A command that has not done anything yet. -/
def start (root : Listing) : Run := ⟨root, [], none⟩

/-- The run after one more step; a run that has failed takes none. -/
def step (run : Run) (f : Run → Run) : Run := if run.failure.isSome then run else f run

/-- The run with one more line printed. -/
def print (run : Run) (line : Text) : Run := { run with printed := run.printed ++ [line] }

/-- The run ended by a failure. -/
def fail (run : Run) (failure : Failure) : Run := { run with failure := some failure }

/-- The run with the file at an absolute path replaced. -/
def write (run : Run) (path : Bytes) (text : Text) : Run :=
  { run with root := run.root.write (Path.names path) (.text text) }

/-- The run after a step that may fail. -/
def attempt {α : Type} (run : Run) (result : Except Failure α) (f : α → Run → Run) : Run :=
  match result with
  | .ok a => f a run
  | .error failure => run.fail failure

/-- All that was printed. -/
def stdout (run : Run) : Text := run.printed.flatMap (· ++ ['\n'])

/-- The sentences that tell the failure. -/
def errors (run : Run) : List Text := (run.failure.map Failure.chain).getD []

/-- The exit code of a run. -/
def exitCode (run : Run) : Nat := if run.failure.isSome then 1 else 0

end Run

namespace Command

/-- The absolute path, in names only, that an argument leads to from the current directory. -/
def resolve (root : Listing) (currentDir : Bytes) (arg : Text) : Except Failure Bytes :=
  let path := Path.join currentDir arg.bytes
  match root.follow path with
  | .ok names => .ok (Path.ofNames names)
  | .error _ => .error (.notFound path)

/-- The text of a source file. -/
def readSource (root : Listing) (path : Bytes) : Except Failure Text :=
  (root.read path).mapError (.unreadable path)

/-- The settings that hold for a path. -/
def settingsFor (root : Listing) (path : Bytes) : Except Failure Settings :=
  (root.settingsFor path).mapError .settings

/-! ## Formatting -/

/-- Lays one file out, or only reports it. -/
def formatFile (currentDir : Bytes) (check : Bool) (settings : Settings) (run : Run)
    (file : Bytes) : Run :=
  run.attempt (readSource run.root file) fun text run =>
    match settings.formatEdit? text with
    | none => run
    | some edit =>
      let shown := Path.display currentDir file
      if check then run.print shown
      else (run.write file (Edit.applyAll text [edit])).print ("Formatted ".toList ++ shown)

/-- The path and the settings for one path on the command line. -/
def formatTarget (root : Listing) (currentDir : Bytes) (indent : Option Nat) (arg : Text) :
    Except Failure (Bytes × Settings) := do
  let path ← resolve root currentDir arg
  let settings ← settingsFor root path
  return (path, { settings with indentWidth := indent.getD settings.indentWidth })

/-- Lays out the files that one path on the command line stands for. -/
def formatPath (currentDir : Bytes) (check : Bool) (indent : Option Nat) (run : Run) (arg : Text) :
    Run :=
  run.attempt (formatTarget run.root currentDir indent arg) fun (path, settings) run =>
    (run.root.collect settings path).foldl
      (fun run file => run.step fun run => formatFile currentDir check settings run file) run

/-- Lays files out. When only checking, a file that is not laid out is a failure in the end. -/
def runFormat (root : Listing) (currentDir : Bytes) (paths : List Text) (check : Bool)
    (indent : Option Nat) : Run :=
  let run := paths.foldl
    (fun run arg => run.step fun run => formatPath currentDir check indent run arg)
    (Run.start root)
  run.step fun run =>
    if check && !run.printed.isEmpty then run.fail (.notFormatted run.printed.length) else run

/-! ## Looking up -/

/-- What a look-up at a place of a file needs; the file is known by its path as it is shown. -/
structure Target where
  file : Text
  text : Text
  position : Position
  settings : Settings
  workspace : Source Unit

/-- The target of a look-up. The workspace is the directory of the file unless a root is given. -/
def target (root : Listing) (currentDir : Bytes) (place : Text) (searchRoot : Option Text) :
    Except Failure Target := do
  let (path, position) ← (Place.read place).mapError .place
  let file ← resolve root currentDir path
  let text ← readSource root file
  let settings ← settingsFor root file
  let top ← match searchRoot with
    | some arg => resolve root currentDir arg
    | none => pure ((Path.parent? file).getD [Path.dot])
  return ⟨Text.lossy file, text, position, settings, root.workspace settings top⟩

/-- The declaration of the name at a place, as a written place. -/
def runDefinition (root : Listing) (currentDir : Bytes) (place : Text) (searchRoot : Option Text) :
    Except Failure Text := do
  let t ← target root currentDir place searchRoot
  match (Lookup.definitionAt t.file t.text t.position (some t.workspace) ()).result with
  | some location => return Place.write currentDir location.file location.position
  | none => throw .noDefinition

/-- The documentation of the name at a place. -/
def runHover (root : Listing) (currentDir : Bytes) (place : Text) (searchRoot : Option Text) :
    Except Failure Text := do
  let t ← target root currentDir place searchRoot
  match (t.settings.documentation t.file t.text t.position (some t.workspace) ()).result with
  | some documentation => return documentation
  | none => throw .noDocumentation

/-! ## Importing and completing -/

/-- The path, the text and the settings of a file. -/
def openFile (root : Listing) (currentDir : Bytes) (arg : Text) :
    Except Failure (Bytes × Text × Settings) := do
  let path ← resolve root currentDir arg
  let text ← readSource root path
  let settings ← settingsFor root path
  return (path, text, settings)

/-- Imports a name into a file, or shows the edits that do. -/
def runImport (root : Listing) (currentDir : Bytes) (file symbol : Text) (module : Option Text)
    (write : Bool) : Run :=
  let run := Run.start root
  run.attempt (openFile root currentDir file) fun (path, text, settings) run =>
    let module := module.getD settings.stdModule
    let edits := Import.ensure text symbol module
    if !write then run.print (Json.pretty (.array (edits.map Edit.toJson)))
    else if edits.isEmpty then
      run.print
        (symbol ++ " is already available in ".toList ++ Path.display currentDir path)
    else
      (run.write path (Edit.applyAll text edits)).print
        ("Imported ".toList ++ symbol ++ " from ".toList ++ module)

/-- The words offered in a file. -/
def runComplete (root : Listing) (currentDir : Bytes) (file : Text) : Except Failure Text := do
  let (_, text, settings) ← openFile root currentDir file
  return Json.pretty (.array ((settings.completions text).map Completion.Item.toJson))

/-- A run that prints one answer, or fails. -/
def answer (root : Listing) (result : Except Failure Text) : Run :=
  (Run.start root).attempt result fun line run => run.print line

/-- The whole of a command. -/
def run (root : Listing) (currentDir : Bytes) : Command → Run
  | format paths check indent => runFormat root currentDir paths check indent
  | definition place searchRoot => answer root (runDefinition root currentDir place searchRoot)
  | hover place searchRoot => answer root (runHover root currentDir place searchRoot)
  | importName file symbol module write => runImport root currentDir file symbol module write
  | complete file => answer root (runComplete root currentDir file)

end Command

end YapAssist
