import ScreenAtlas.Pattern
import ScreenAtlas.Checklist
import ScreenAtlas.Findings.Codec
import ScreenAtlas.Path
import ScreenAtlas.Route.Codec
import ScreenAtlas.Group
import ScreenAtlas.FileSystem.Sources
import ScreenAtlas.FileSystem.Edit
import ScreenAtlas.Settings.Load
import ScreenAtlas.Survey
import ScreenAtlas.Overview.Markdown
import ScreenAtlas.Overview.Document
import ScreenAtlas.CommandLine
import ScreenAtlas.Main
import ScreenAtlas.Proofs.AssetLog
import ScreenAtlas.Proofs.Survey.Scan
import ScreenAtlas.Proofs.Path.Join
import ScreenAtlas.Proofs.Path.Below
import ScreenAtlas.Proofs.Path.Extension
import ScreenAtlas.Proofs.Survey.History
import ScreenAtlas.Proofs.FileSystem.Walk
import ScreenAtlas.Proofs.FileSystem.Sources
import ScreenAtlas.Proofs.Path.Text
import ScreenAtlas.Proofs.Route
import ScreenAtlas.Proofs.Survey.Addresses
import ScreenAtlas.Proofs.Group
import ScreenAtlas.Proofs.Survey.Components
import ScreenAtlas.Proofs.Overview.Lines
import ScreenAtlas.Proofs.Overview.Screens
import ScreenAtlas.Proofs.Overview.Groups
import ScreenAtlas.Proofs.Overview.Content
import ScreenAtlas.Proofs.Survey.Layout
import ScreenAtlas.Proofs.Json.Number
import ScreenAtlas.Proofs.Json.Scalar
import ScreenAtlas.Proofs.Json.Collection
import ScreenAtlas.Proofs.Json.Skip
import ScreenAtlas.Proofs.Json.Value
import ScreenAtlas.Proofs.Codec.Route
import ScreenAtlas.Proofs.Codec.Findings
import ScreenAtlas.Proofs.Codec.Settings
import ScreenAtlas.Proofs.Codec.Document
import ScreenAtlas.Proofs.Codec.Lossless
import ScreenAtlas.Proofs.Survey.Tags
import ScreenAtlas.Proofs.Route.Segments
import ScreenAtlas.Proofs.Survey.Limits
import ScreenAtlas.Proofs.CommandLine
import ScreenAtlas.Proofs.Pattern.Spelling
import ScreenAtlas.Proofs.Pattern.Search
import ScreenAtlas.Proofs.Pattern.Places
import ScreenAtlas.Proofs.Text.Trim
import ScreenAtlas.Proofs.Text.LineEnds
import ScreenAtlas.Proofs.Pattern.LineEnds
import ScreenAtlas.Proofs.Findings.Counts
import ScreenAtlas.Proofs.Findings.Styles
import ScreenAtlas.Proofs.Findings.Names
import ScreenAtlas.Proofs.Findings.LineEnds
import ScreenAtlas.Proofs.Pattern.Context
import ScreenAtlas.Proofs.Findings.Growth
import ScreenAtlas.Proofs.Findings.Blocks
import ScreenAtlas.Proofs.Path.Shown
import ScreenAtlas.Proofs.Route.Layouts
import ScreenAtlas.Proofs.Route.Collisions
import ScreenAtlas.Proofs.Path.Parts
import ScreenAtlas.Proofs.Group.Partition
import ScreenAtlas.Proofs.Path.Relative
import ScreenAtlas.Proofs.Settings.Apart
import ScreenAtlas.Proofs.Json.Slots
import ScreenAtlas.Proofs.Settings.File
import ScreenAtlas.Proofs.Path.Runs
import ScreenAtlas.Proofs.Route.Runs
import ScreenAtlas.Proofs.AssetLog.Calls
import ScreenAtlas.Proofs.Json.Tree
import ScreenAtlas.Proofs.Json.Meaning
import ScreenAtlas.Proofs.Json.Nested
import ScreenAtlas.Proofs.Codec.Trees
import ScreenAtlas.Proofs.Codec.Presentation
