import YapAssist.Assistant
import YapAssist.Block.Header
import YapAssist.Block.Parts
import YapAssist.Block.Spacing
import YapAssist.Command.Answer
import YapAssist.Command.Arguments
import YapAssist.Command.Place
import YapAssist.Command.Run
import YapAssist.Disk.Path
import YapAssist.Disk.Settings
import YapAssist.Disk.Tree
import YapAssist.Disk.Walk
import YapAssist.Edit
import YapAssist.Fault
import YapAssist.Import.Clause
import YapAssist.Import.Ensure
import YapAssist.Json.Reader
import YapAssist.Json.Value
import YapAssist.Layout.Detached
import YapAssist.Layout.Edit
import YapAssist.Layout.Row
import YapAssist.Line.Kind
import YapAssist.Line.Literal
import YapAssist.Main
import YapAssist.Position
import YapAssist.Proofs.Block.Declarations
import YapAssist.Proofs.Block.Header
import YapAssist.Proofs.Block.Parts
import YapAssist.Proofs.Block.Quotes
import YapAssist.Proofs.Block.Spacing
import YapAssist.Proofs.Command.Format
import YapAssist.Proofs.Command.Progress
import YapAssist.Proofs.Disk.Overwrite
import YapAssist.Proofs.Disk.Tree
import YapAssist.Proofs.Edit
import YapAssist.Proofs.Import.Clause
import YapAssist.Proofs.Import.Ensure
import YapAssist.Proofs.Import.Frame
import YapAssist.Proofs.Import.InCode
import YapAssist.Proofs.Import.Orderly
import YapAssist.Proofs.Import.Places
import YapAssist.Proofs.Import.Positions
import YapAssist.Proofs.Import.Spelling
import YapAssist.Proofs.Import.Tidy
import YapAssist.Proofs.Layout.Brackets
import YapAssist.Proofs.Layout.Cuts
import YapAssist.Proofs.Layout.Declarations
import YapAssist.Proofs.Layout.Detached
import YapAssist.Proofs.Layout.Edit
import YapAssist.Proofs.Layout.Endings
import YapAssist.Proofs.Layout.Idempotence
import YapAssist.Proofs.Layout.Ink
import YapAssist.Proofs.Layout.Literals
import YapAssist.Proofs.Layout.Remarks
import YapAssist.Proofs.Layout.Rows
import YapAssist.Proofs.Layout.Stable
import YapAssist.Proofs.Line.Literals
import YapAssist.Proofs.Line.Mode
import YapAssist.Proofs.Position
import YapAssist.Proofs.Sorting
import YapAssist.Proofs.Symbol.Declaration
import YapAssist.Proofs.Symbol.Occurrence
import YapAssist.Proofs.Text.Blocks
import YapAssist.Proofs.Text.Columns
import YapAssist.Proofs.Text.Lines
import YapAssist.Proofs.Text.Trim
import YapAssist.Proofs.Workspace.Lookup
import YapAssist.Proofs.Workspace.Search
import YapAssist.Settings
import YapAssist.Settings.Reader
import YapAssist.Sorting
import YapAssist.Symbol.BuiltIn
import YapAssist.Symbol.Completion
import YapAssist.Symbol.Declaration
import YapAssist.Symbol.Documentation
import YapAssist.Text.Basic
import YapAssist.Text.Blank
import YapAssist.Text.Bytes
import YapAssist.Text.Lines
import YapAssist.Text.Numeral
import YapAssist.Text.Word
import YapAssist.Workspace.Lookup
import YapAssist.Workspace.Source
import YapAssist.Workspace.Store
import YapAssist.Proofs.Command.Place
import YapAssist.Proofs.Workspace.Store
import YapAssist.Proofs.Disk.Walk
import YapAssist.Proofs.Symbol.Signature
import YapAssist.Proofs.Cursor
import YapAssist.Proofs.Line.Automaton
import YapAssist.Proofs.Block.Recursion
import YapAssist.Proofs.Position.Order
