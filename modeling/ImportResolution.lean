import ImportResolution.AliasTable
import ImportResolution.Builtins
import ImportResolution.CommandLine.Arguments
import ImportResolution.CommandLine.Commands
import ImportResolution.CommandLine.Reports
import ImportResolution.CommandLine.Switches
import ImportResolution.CommandLine.Workspace
import ImportResolution.CompilerConfig.Chain
import ImportResolution.CompilerConfig.File
import ImportResolution.Decimal.Digits
import ImportResolution.Decimal.Range
import ImportResolution.Decimal.Shortest
import ImportResolution.Dependency.Cycle
import ImportResolution.Dependency.Graph
import ImportResolution.Dependency.Inference
import ImportResolution.Dependency.Search
import ImportResolution.DirectoryTree
import ImportResolution.Fault
import ImportResolution.FilePath
import ImportResolution.FileStore
import ImportResolution.InstalledPackages
import ImportResolution.Json.Document
import ImportResolution.Json.Numeral
import ImportResolution.Json.Record
import ImportResolution.Json.Value
import ImportResolution.Json5.Document
import ImportResolution.Locator.Basic
import ImportResolution.Locator.Resolve
import ImportResolution.Main
import ImportResolution.Memo
import ImportResolution.ModuleSearch.Basic
import ImportResolution.ModuleSearch.Compiler
import ImportResolution.ModuleSearch.Runtime
import ImportResolution.PackageDescriptor
import ImportResolution.PackageFiles
import ImportResolution.ProjectRoots
import ImportResolution.Proofs.AliasTable
import ImportResolution.Proofs.AliasTable.Agreement
import ImportResolution.Proofs.AliasTable.Closest
import ImportResolution.Proofs.Builtins
import ImportResolution.Proofs.CommandLine.Paths
import ImportResolution.Proofs.CommandLine.Tasks
import ImportResolution.Proofs.CompilerConfig.Circles
import ImportResolution.Proofs.CompilerConfig.Derivation
import ImportResolution.Proofs.CompilerConfig.LastWriter
import ImportResolution.Proofs.CompilerConfig.Loads
import ImportResolution.Proofs.CompilerConfig.Reading
import ImportResolution.Proofs.CompilerConfig.Spellings
import ImportResolution.Proofs.CompilerConfig.Trails
import ImportResolution.Proofs.Dependency.BreadthFirst
import ImportResolution.Proofs.Dependency.Changes
import ImportResolution.Proofs.Dependency.Components
import ImportResolution.Proofs.Dependency.Cycle
import ImportResolution.Proofs.Dependency.Graph
import ImportResolution.Proofs.Dependency.Inference
import ImportResolution.Proofs.Dependency.Order
import ImportResolution.Proofs.Dependency.Records
import ImportResolution.Proofs.Dependency.Repeats
import ImportResolution.Proofs.FilePath
import ImportResolution.Proofs.FilePath.Detours
import ImportResolution.Proofs.FilePath.Differences
import ImportResolution.Proofs.FilePath.Names
import ImportResolution.Proofs.FilePath.NormalForms
import ImportResolution.Proofs.FilePath.Parents
import ImportResolution.Proofs.FileStore
import ImportResolution.Proofs.FileStore.Directories
import ImportResolution.Proofs.InstalledPackages
import ImportResolution.Proofs.InstalledPackages.Nearest
import ImportResolution.Proofs.Json.Document
import ImportResolution.Proofs.Json.Leaves
import ImportResolution.Proofs.Json.Record
import ImportResolution.Proofs.Locator.ConfigReadings
import ImportResolution.Proofs.Locator.Counts
import ImportResolution.Proofs.Locator.Declared
import ImportResolution.Proofs.Locator.Events
import ImportResolution.Proofs.Locator.Frame
import ImportResolution.Proofs.Locator.History
import ImportResolution.Proofs.Locator.Names
import ImportResolution.Proofs.Locator.Recall
import ImportResolution.Proofs.Locator.Recovery
import ImportResolution.Proofs.Locator.Relative
import ImportResolution.Proofs.Locator.Shadowed
import ImportResolution.Proofs.Locator.Slots
import ImportResolution.Proofs.Locator.Soundness
import ImportResolution.Proofs.Locator.Spared
import ImportResolution.Proofs.Locator.Spellings
import ImportResolution.Proofs.Locator.Transparency
import ImportResolution.Proofs.Memo
import ImportResolution.Proofs.ModuleSearch
import ImportResolution.Proofs.ModuleSearch.Aliases
import ImportResolution.Proofs.ModuleSearch.Compiler
import ImportResolution.Proofs.ModuleSearch.Detours
import ImportResolution.Proofs.ModuleSearch.Found
import ImportResolution.Proofs.ModuleSearch.Relative
import ImportResolution.Proofs.ModuleSearch.Runtime
import ImportResolution.Proofs.PackageDescriptor
import ImportResolution.Proofs.PackageDescriptor.EntryPoints
import ImportResolution.Proofs.PackageFiles
import ImportResolution.Proofs.PackageFiles.Fetches
import ImportResolution.Proofs.ProjectRoots
import ImportResolution.Proofs.ProjectRoots.Nearest
import ImportResolution.Proofs.ProjectRoots.Outwards
import ImportResolution.Proofs.SameFiles
import ImportResolution.Proofs.Settings.Document
import ImportResolution.Proofs.Settings.InstalledDirectory
import ImportResolution.Proofs.Settings.Lookup
import ImportResolution.Proofs.Settings.Overrides
import ImportResolution.Proofs.Settings.Precedence
import ImportResolution.Proofs.Sharing
import ImportResolution.Proofs.Specifier
import ImportResolution.Proofs.Steady
import ImportResolution.Proofs.Table
import ImportResolution.Proofs.Text.Position
import ImportResolution.Proofs.Text.Segments
import ImportResolution.Proofs.Text.Slices
import ImportResolution.Proofs.Toml.Document
import ImportResolution.Proofs.Toml.Quoted
import ImportResolution.Proofs.Toml.Scan
import ImportResolution.Proofs.Workspace.Graph
import ImportResolution.Proofs.Workspace.Problems
import ImportResolution.Proofs.WorkspacePath
import ImportResolution.Proofs.WorkspacePath.Joins
import ImportResolution.Proofs.WorkspacePath.Locations
import ImportResolution.Settings.Basic
import ImportResolution.Settings.Document
import ImportResolution.Settings.Lookup
import ImportResolution.Settings.Overrides
import ImportResolution.Specifier
import ImportResolution.Strategy
import ImportResolution.Table
import ImportResolution.Text.Blank
import ImportResolution.Text.Letter
import ImportResolution.Text.Position
import ImportResolution.Text.Ranges
import ImportResolution.Text.Segments
import ImportResolution.Text.Shown
import ImportResolution.Toml.Document
import ImportResolution.Toml.Item
import ImportResolution.Toml.Quoted
import ImportResolution.Toml.Scalar
import ImportResolution.Toml.Scan
import ImportResolution.Workspace.Graph
import ImportResolution.Workspace.Imports
import ImportResolution.WorkspacePath
