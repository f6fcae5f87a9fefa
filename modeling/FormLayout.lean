import FormLayout.Entries
import FormLayout.Text.Blank
import FormLayout.Text.Pieces
import FormLayout.Number.Literal
import FormLayout.Document.Json.Writer
import FormLayout.Document.Json.Reader
import FormLayout.ShowItem
import FormLayout.Form.Position
import FormLayout.Form.Tree
import FormLayout.Column.Merge
import FormLayout.Column.Diff
import FormLayout.Palette.Fold
import FormLayout.Layout.Reading
import FormLayout.Table.Reading
import FormLayout.Table.Compiling
import FormLayout.Table.Editing
import FormLayout.Files.Directory
import FormLayout.Document.Toml.Reader
import FormLayout.Document.Toml.Writer
import FormLayout.Document.Yaml.Reader
import FormLayout.Document.Yaml.Writer
import FormLayout.Settings.Loading
import FormLayout.Command.Run
import FormLayout.Main
import FormLayout.Proofs.Entries
import FormLayout.Proofs.Definitions
import FormLayout.Proofs.Text
import FormLayout.Proofs.Form.Links
import FormLayout.Proofs.Form.Fresh
import FormLayout.Proofs.Form.Moves
import FormLayout.Proofs.Form.Kinds
import FormLayout.Proofs.Form.Position
import FormLayout.Proofs.Form.Walk
import FormLayout.Proofs.ShowItem
import FormLayout.Proofs.Form.Contents
import FormLayout.Proofs.Form.Runs
import FormLayout.Proofs.Layout.Sound
import FormLayout.Proofs.Form.Consistency
import FormLayout.Proofs.Layout.Items
import FormLayout.Proofs.Layout.Append
import FormLayout.Proofs.Layout.Replay
import FormLayout.Proofs.Layout.Orderly
import FormLayout.Proofs.Layout.Faults
import FormLayout.Proofs.Layout.RoundTrip
import FormLayout.Proofs.Layout.Outline
import FormLayout.Proofs.Layout.Rearrange
import FormLayout.Proofs.Palette.Fold
import FormLayout.Proofs.Document.Value
import FormLayout.Proofs.Table.Reading
import FormLayout.Proofs.Table.Editing
import FormLayout.Proofs.Table.Compiling
import FormLayout.Proofs.Table.Expansion
import FormLayout.Proofs.Column.Merge
import FormLayout.Proofs.Column.Reduction
import FormLayout.Proofs.Column.Least
import FormLayout.Proofs.Column.Rebase
import FormLayout.Proofs.Column.Congruence
import FormLayout.Proofs.Column.Equivalence
import FormLayout.Proofs.Number.Rounding
import FormLayout.Proofs.Column.Integers
import FormLayout.Proofs.Column.Outcome
import FormLayout.Proofs.Inheritance
import FormLayout.Proofs.Palette.Apart
import FormLayout.Proofs.Layout.Redirect
import FormLayout.Proofs.Layout.Columns
import FormLayout.Proofs.Table.Loaded
import FormLayout.Proofs.Table.Columns
import FormLayout.Proofs.Table.Naming
import FormLayout.Proofs.Table.Reloading
import FormLayout.Proofs.Table.Stability
import FormLayout.Proofs.Table.Views
import FormLayout.Proofs.Table.Runs
import FormLayout.Proofs.Table.Frame
import FormLayout.Proofs.Table.Closed
import FormLayout.Proofs.Table.Woven
import FormLayout.Proofs.Table.Removal
import FormLayout.Proofs.Table.Tidy
import FormLayout.Proofs.Table.Alike
import FormLayout.Proofs.Table.Invalidating
import FormLayout.Proofs.Table.Showing
import FormLayout.Proofs.Form.Placement
import FormLayout.Proofs.Palette.Renaming
import FormLayout.Proofs.Palette.Retention
import FormLayout.Proofs.Settings.Extending
import FormLayout.Proofs.Form.Shown
import FormLayout.Proofs.Layout.Occurrences
import FormLayout.Proofs.Layout.Laid
import FormLayout.Proofs.Layout.Filling
import FormLayout.Proofs.Layout.Synthesis
import FormLayout.Proofs.Form.Removal
import FormLayout.Proofs.Form.InPlace
import FormLayout.Proofs.Form.Refusal
import FormLayout.Proofs.Form.LineBreaks
import FormLayout.Proofs.Form.Alike
import FormLayout.Proofs.Layout.Alike
import FormLayout.Proofs.Document.Reading
import FormLayout.Proofs.Files.Path
import FormLayout.Proofs.Files.Discovery
import FormLayout.Proofs.Files.Writing
import FormLayout.Proofs.Command.Inputs
import FormLayout.Proofs.Command.Compile
import FormLayout.Proofs.Layout.Sequence
import FormLayout.Proofs.Command.Describe
import FormLayout.Proofs.Form.Issued
import FormLayout.Proofs.Layout.Issued
