import PrecompiledHeaders.Compiler.Settings
import PrecompiledHeaders.Compiler.Task
import PrecompiledHeaders.Config.Basic
import PrecompiledHeaders.Config.Discovery
import PrecompiledHeaders.Datum.Basic
import PrecompiledHeaders.Datum.Json
import PrecompiledHeaders.Datum.Toml.Document
import PrecompiledHeaders.Datum.Toml.Scalar
import PrecompiledHeaders.Datum.Toml.Table
import PrecompiledHeaders.Diagnostic.Basic
import PrecompiledHeaders.Diagnostic.Code
import PrecompiledHeaders.Diagnostic.Sink
import PrecompiledHeaders.FileTree.Access
import PrecompiledHeaders.FileTree.Basic
import PrecompiledHeaders.FileTree.Change
import PrecompiledHeaders.Frontend.Basic
import PrecompiledHeaders.Frontend.Failing
import PrecompiledHeaders.Frontend.Process
import PrecompiledHeaders.Frontend.Registry
import PrecompiledHeaders.Frontend.Scan
import PrecompiledHeaders.Generation.Artifact
import PrecompiledHeaders.Generation.Collector
import PrecompiledHeaders.Generation.Generator
import PrecompiledHeaders.Generation.IncludeSet
import PrecompiledHeaders.Generation.Names
import PrecompiledHeaders.Hash.ContentHash
import PrecompiledHeaders.Hash.Xxh3
import PrecompiledHeaders.Include.Directive
import PrecompiledHeaders.Include.Trace
import PrecompiledHeaders.Include.Walk
import PrecompiledHeaders.Job.Basic
import PrecompiledHeaders.Job.Document
import PrecompiledHeaders.Job.Queue
import PrecompiledHeaders.Job.Reparse
import PrecompiledHeaders.Job.Request
import PrecompiledHeaders.Main
import PrecompiledHeaders.Path.Basic
import PrecompiledHeaders.Path.Key
import PrecompiledHeaders.Path.Normal
import PrecompiledHeaders.Path.Table
import PrecompiledHeaders.Program.Command
import PrecompiledHeaders.Program.Options
import PrecompiledHeaders.Program.Run
import PrecompiledHeaders.Program.Session
import PrecompiledHeaders.Program.Workplace
import PrecompiledHeaders.ProjectPart
import PrecompiledHeaders.Proofs.Compiler.Appending
import PrecompiledHeaders.Proofs.Compiler.Settings
import PrecompiledHeaders.Proofs.Compiler.Tasks
import PrecompiledHeaders.Proofs.Config.Discovery
import PrecompiledHeaders.Proofs.Datum.Json
import PrecompiledHeaders.Proofs.Diagnostic.Code
import PrecompiledHeaders.Proofs.Diagnostic.RoundTrip
import PrecompiledHeaders.Proofs.FileTree.Change
import PrecompiledHeaders.Proofs.FileTree.Growth
import PrecompiledHeaders.Proofs.FileTree.Identity
import PrecompiledHeaders.Proofs.FileTree.Making
import PrecompiledHeaders.Proofs.FileTree.Plain
import PrecompiledHeaders.Proofs.FileTree.Resolving
import PrecompiledHeaders.Proofs.FileTree.Steps
import PrecompiledHeaders.Proofs.FileTree.Ways
import PrecompiledHeaders.Proofs.FileTree.Writing
import PrecompiledHeaders.Proofs.Frontend.Consumption
import PrecompiledHeaders.Proofs.Frontend.Emit
import PrecompiledHeaders.Proofs.Frontend.Exclusion
import PrecompiledHeaders.Proofs.Frontend.Footprint
import PrecompiledHeaders.Proofs.Frontend.Preprocess
import PrecompiledHeaders.Proofs.Frontend.Rescan
import PrecompiledHeaders.Proofs.Frontend.Scan
import PrecompiledHeaders.Proofs.Frontend.Termination
import PrecompiledHeaders.Proofs.Frontend.Unit
import PrecompiledHeaders.Proofs.Frontend.Writing
import PrecompiledHeaders.Proofs.Generation.Aborting
import PrecompiledHeaders.Proofs.Generation.Collect
import PrecompiledHeaders.Proofs.Generation.Emission
import PrecompiledHeaders.Proofs.Generation.Exclusion
import PrecompiledHeaders.Proofs.Generation.Failures
import PrecompiledHeaders.Proofs.Generation.FilePaths
import PrecompiledHeaders.Proofs.Generation.Files
import PrecompiledHeaders.Proofs.Generation.GlobalSnapshot
import PrecompiledHeaders.Proofs.Generation.History
import PrecompiledHeaders.Proofs.Generation.IncludeSet
import PrecompiledHeaders.Proofs.Generation.Includes
import PrecompiledHeaders.Proofs.Generation.Likeness
import PrecompiledHeaders.Proofs.Generation.Merging
import PrecompiledHeaders.Proofs.Generation.Names
import PrecompiledHeaders.Proofs.Generation.NewHeaders
import PrecompiledHeaders.Proofs.Generation.PartSnapshots
import PrecompiledHeaders.Proofs.Generation.Passes
import PrecompiledHeaders.Proofs.Generation.Preview
import PrecompiledHeaders.Proofs.Generation.SetHalves
import PrecompiledHeaders.Proofs.Generation.Sharing
import PrecompiledHeaders.Proofs.Generation.Steps
import PrecompiledHeaders.Proofs.Generation.Warnings
import PrecompiledHeaders.Proofs.Include.Change
import PrecompiledHeaders.Proofs.Include.Depth
import PrecompiledHeaders.Proofs.Include.LineEnds
import PrecompiledHeaders.Proofs.Include.Lines
import PrecompiledHeaders.Proofs.Include.Listing
import PrecompiledHeaders.Proofs.Include.Names
import PrecompiledHeaders.Proofs.Include.Reach
import PrecompiledHeaders.Proofs.Include.Regions
import PrecompiledHeaders.Proofs.Include.Trace
import PrecompiledHeaders.Proofs.Include.Visits
import PrecompiledHeaders.Proofs.Job.Agreement
import PrecompiledHeaders.Proofs.Job.Books
import PrecompiledHeaders.Proofs.Job.Calls
import PrecompiledHeaders.Proofs.Job.Freshness
import PrecompiledHeaders.Proofs.Job.Idle
import PrecompiledHeaders.Proofs.Job.Log
import PrecompiledHeaders.Proofs.Job.Naming
import PrecompiledHeaders.Proofs.Job.Revisions
import PrecompiledHeaders.Proofs.Job.Schedule
import PrecompiledHeaders.Proofs.Job.Supersession
import PrecompiledHeaders.Proofs.Job.Views
import PrecompiledHeaders.Proofs.Job.Workshop
import PrecompiledHeaders.Proofs.Path.Absolute
import PrecompiledHeaders.Proofs.Path.Cancelling
import PrecompiledHeaders.Proofs.Path.Forms
import PrecompiledHeaders.Proofs.Path.Join
import PrecompiledHeaders.Proofs.Path.Key
import PrecompiledHeaders.Proofs.Path.Lists
import PrecompiledHeaders.Proofs.Path.Normal
import PrecompiledHeaders.Proofs.Path.Numbering
import PrecompiledHeaders.Proofs.Path.Parent
import PrecompiledHeaders.Proofs.Path.Repeats
import PrecompiledHeaders.Proofs.Path.Stages
import PrecompiledHeaders.Proofs.Path.Table
import PrecompiledHeaders.Proofs.Program.Parts
import PrecompiledHeaders.Proofs.Program.Preview
import PrecompiledHeaders.Proofs.Program.Session
import PrecompiledHeaders.Proofs.Snapshot.Files
import PrecompiledHeaders.Proofs.Snapshot.RoundTrip
import PrecompiledHeaders.Proofs.Text.Distinct
import PrecompiledHeaders.Proofs.Text.Reader
import PrecompiledHeaders.Proofs.Text.Split
import PrecompiledHeaders.Proofs.Text.Utf8
import PrecompiledHeaders.Shell.Launch
import PrecompiledHeaders.Shell.Pattern
import PrecompiledHeaders.Shell.Run
import PrecompiledHeaders.Shell.Syntax
import PrecompiledHeaders.Shell.Test
import PrecompiledHeaders.Shell.Text
import PrecompiledHeaders.Snapshot.Basic
import PrecompiledHeaders.Snapshot.Codec
import PrecompiledHeaders.Text.Blank
import PrecompiledHeaders.Text.Digits
import PrecompiledHeaders.Text.Interner
import PrecompiledHeaders.Text.Line
import PrecompiledHeaders.Text.Reader
import PrecompiledHeaders.Text.Split
import PrecompiledHeaders.Text.Utf8
