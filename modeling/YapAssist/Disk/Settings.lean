import YapAssist.Disk.Tree
import YapAssist.Settings.Reader

/-!
# Settings on a disk

The settings of a path come from the nearest settings file: in the path itself if it is a
directory, else in the directory above it, and so on up to the root. Where there is none the
defaults hold.
-/

namespace YapAssist.Listing

/-- The names of settings files, the preferred one first. -/
def settingsNames : List Bytes :=
  [Text.bytes ".yap-tools.json".toList, Text.bytes "yap-tools.json".toList]

/-- The nearest settings file at or above a path. -/
def settingsFile? (root : Listing) (path : Bytes) : Option Bytes :=
  (Path.ancestors path).findSome? fun dir =>
    (settingsNames.map (Path.join dir)).find? root.holds

/-- The settings in the file at a path. -/
def readSettings (root : Listing) (path : Bytes) : Except Fault Settings :=
  match root.read path with
  | .error cause => .error (.unreadable cause)
  | .ok text =>
    match Settings.read? text with
    | some settings => .ok settings
    | none => .error (.settings (Text.lossy path))

/-- The settings that hold for a path. -/
def settingsFor (root : Listing) (path : Bytes) : Except Fault Settings :=
  let start := if root.isFile path then (Path.parent? path).getD path else path
  match root.settingsFile? start with
  | some found => root.readSettings found
  | none => .ok .default

end YapAssist.Listing
