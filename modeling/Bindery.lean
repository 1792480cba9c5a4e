import Bindery.Dict
import Bindery.Path
import Bindery.Text.Stamp
import Bindery.Text.Blank
import Bindery.Text.Letter
import Bindery.Text.Numeral
import Bindery.Template.Syntax
import Bindery.Template.Piece
import Bindery.Template.Segment
import Bindery.Template.Word
import Bindery.Template.Formula
import Bindery.Template.Statement
import Bindery.Template.Block
import Bindery.Files.Fault
import Bindery.Template.Value
import Bindery.Template.Fault
import Bindery.Template.Render
import Bindery.Template.Engine
import Bindery.Files.Content
import Bindery.Files.Archive
import Bindery.Files.Tree
import Bindery.Files.Walk
import Bindery.Files.Access
import Bindery.Files.Change
import Bindery.Number.Binary
import Bindery.Number.Shortest
import Bindery.Number.Double
import Bindery.Json
import Bindery.Yaml.Cursor
import Bindery.Yaml.Token
import Bindery.Yaml.Name
import Bindery.Yaml.Plain
import Bindery.Yaml.Quoted
import Bindery.Yaml.BlockText
import Bindery.Yaml.Layout
import Bindery.Yaml.Node
import Bindery.Yaml.Tree
import Bindery.Yaml.Number
import Bindery.Yaml.Value
import Bindery.Template.Conversion
import Bindery.Format
import Bindery.Book.Basic
import Bindery.Book.Fault
import Bindery.Book.Reading
import Bindery.Book.Writing
import Bindery.Build.Stage
import Bindery.Tool.Call
import Bindery.Tool.Watch
import Bindery.Build.Fault
import Bindery.Build.Staging
import Bindery.Template.Source
import Bindery.Build.Site
import Bindery.Build.Run
import Bindery.Build.Catalog
import Bindery.Tool.Rehearsal
import Bindery.Project
import Bindery.Host.Machine
import Bindery.Host.Utility
import Bindery.Host.Program
import Bindery.Script.Reading
import Bindery.Script.Syntax
import Bindery.Host.Shell
import Bindery.Host
import Bindery.CommandLine.Request
import Bindery.CommandLine.Reply
import Bindery.Main
import Bindery.Proofs.Template.Printer
import Bindery.Proofs.Template.RoundTrip
import Bindery.Proofs.Template.Inlining
import Bindery.Proofs.Template.Confinement
import Bindery.Proofs.Template.ImportGraph
import Bindery.Proofs.Template.Variables
import Bindery.Proofs.Template.GrammarReading
import Bindery.Proofs.Template.Nesting
import Bindery.Proofs.Build.Output
import Bindery.Proofs.Build.Scratch
import Bindery.Proofs.Build.Course
import Bindery.Proofs.Build.ArchiveContent
import Bindery.Proofs.Build.ToolPaths
import Bindery.Proofs.Build.Frame
import Bindery.Proofs.Build.ToolCalls
import Bindery.Proofs.Book.Reloading
import Bindery.Proofs.Template.Guards
import Bindery.Proofs.Template.Blame
import Bindery.Proofs.Template.Descent
import Bindery.Proofs.Template.Progress
import Bindery.Proofs.Build.Pruning
import Bindery.Proofs.Build.Assets
import Bindery.Proofs.Files.Making
import Bindery.Proofs.Files.Seen
import Bindery.Proofs.Build.Emptying
import Bindery.Proofs.Template.LoopNames
import Bindery.Proofs.Template.FieldPaths
import Bindery.Proofs.Build.Overlay
import Bindery.Proofs.Build.Transfer
import Bindery.Proofs.Template.Labels
import Bindery.Proofs.Template.FaultLines
import Bindery.Proofs.Template.Exchange
import Bindery.Proofs.Book.Views
import Bindery.Proofs.Template.IntegerRange
import Bindery.Proofs.Template.Integers
import Bindery.Proofs.Template.QuotedSpans
import Bindery.Proofs.Tool.Waiting
