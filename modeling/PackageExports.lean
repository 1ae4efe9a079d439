import PackageExports.Batch.Basic
import PackageExports.Batch.FileCache
import PackageExports.Batch.Lookups
import PackageExports.Batch.Schedule
import PackageExports.BuildLayout
import PackageExports.Command.Arguments
import PackageExports.Command.Line
import PackageExports.CompilerOptions
import PackageExports.Decimal.Binary64
import PackageExports.Decimal.Fixed
import PackageExports.Decimal.Shortest
import PackageExports.Decimal.Written
import PackageExports.Declaration
import PackageExports.Discovery
import PackageExports.Exports.Assembly
import PackageExports.Exports.Baseline
import PackageExports.Exports.Browser
import PackageExports.Exports.Conditions
import PackageExports.Exports.Entry
import PackageExports.Exports.Expansion
import PackageExports.Exports.Update
import PackageExports.Failure
import PackageExports.FileSystem.Basic
import PackageExports.FileSystem.Make
import PackageExports.FileSystem.Resolve
import PackageExports.FileSystem.Walk
import PackageExports.Grammar.Automaton
import PackageExports.Grammar.Production
import PackageExports.Grammar.Reader
import PackageExports.Grammar.Recovery
import PackageExports.Grammar.Reduction
import PackageExports.Grammar.Rule
import PackageExports.Grammar.Stack
import PackageExports.Grammar.Tree
import PackageExports.Json.Comments
import PackageExports.Json.Label
import PackageExports.Json.Printer
import PackageExports.Json.Reader
import PackageExports.Json.Token
import PackageExports.Json.Value
import PackageExports.Keyed
import PackageExports.Main
import PackageExports.Manifest.Basic
import PackageExports.Manifest.Repository
import PackageExports.ModuleKind
import PackageExports.Naming.BuildPattern
import PackageExports.Naming.Flavor
import PackageExports.Notice
import PackageExports.Path.Basic
import PackageExports.Path.Relative
import PackageExports.Path.Written
import PackageExports.Probe
import PackageExports.Proofs.Actions
import PackageExports.Proofs.AddedExports
import PackageExports.Proofs.Batches
import PackageExports.Proofs.CanonicalExports
import PackageExports.Proofs.CleanPaths
import PackageExports.Proofs.ConcurrentExports
import PackageExports.Proofs.Coverage
import PackageExports.Proofs.Detection
import PackageExports.Proofs.Digits
import PackageExports.Proofs.ExportsMap
import PackageExports.Proofs.FailedRuns
import PackageExports.Proofs.FoundFiles
import PackageExports.Proofs.Independence
import PackageExports.Proofs.Keyed
import PackageExports.Proofs.ManifestAgreement
import PackageExports.Proofs.ManifestFrame
import PackageExports.Proofs.PackageUpdate
import PackageExports.Proofs.RoundTrip
import PackageExports.Proofs.Rounding
import PackageExports.Proofs.ScanRun
import PackageExports.Proofs.ScannedUsage
import PackageExports.Proofs.Schedules
import PackageExports.Proofs.SecondRun
import PackageExports.Proofs.ShortestDecimal
import PackageExports.Proofs.Skeleton
import PackageExports.Proofs.Strategies
import PackageExports.Proofs.TextLists
import PackageExports.Proofs.Tokens
import PackageExports.Proofs.Trees
import PackageExports.Proofs.UpdateRun
import PackageExports.Proofs.UsageFile
import PackageExports.Proofs.UsageUnion
import PackageExports.Proofs.Utf8
import PackageExports.Proofs.Walks
import PackageExports.Proofs.Ways
import PackageExports.Proofs.Words
import PackageExports.Proofs.Writing
import PackageExports.Script.Category
import PackageExports.Script.Implied
import PackageExports.Script.Language
import PackageExports.Script.Lexeme
import PackageExports.Script.Node
import PackageExports.Script.Phrase
import PackageExports.Script.Rules.Class
import PackageExports.Script.Rules.Declaration
import PackageExports.Script.Rules.Element
import PackageExports.Script.Rules.Exchange
import PackageExports.Script.Rules.Expression
import PackageExports.Script.Rules.Pattern
import PackageExports.Script.Rules.Statement
import PackageExports.Script.Rules.TypeExpression
import PackageExports.Script.Source
import PackageExports.Script.Specifier
import PackageExports.Script.Token
import PackageExports.Settings.Basic
import PackageExports.Settings.Check
import PackageExports.Settings.Lenient
import PackageExports.Settings.Load
import PackageExports.SourceFile
import PackageExports.Text.Basic
import PackageExports.Text.Blank
import PackageExports.Text.CaseFold
import PackageExports.Text.Digit
import PackageExports.Text.Newline
import PackageExports.Text.Printable
import PackageExports.Text.Quoted
import PackageExports.Text.Utf8
import PackageExports.Text.Word
import PackageExports.Usage.Basic
import PackageExports.Usage.File
import PackageExports.Usage.Scan
import PackageExports.World
import PackageExports.Yaml.Construction
import PackageExports.Yaml.Cursor
import PackageExports.Yaml.Fault
import PackageExports.Yaml.Graph
import PackageExports.Yaml.Layout
import PackageExports.Yaml.Moment
import PackageExports.Yaml.Number
import PackageExports.Yaml.Tag
import PackageExports.Yaml.Token
import PackageExports.Yaml.Value
import PackageExports.Proofs.DualBuilds
import PackageExports.Proofs.RuntimeTargets
import PackageExports.Proofs.NewFiles
import PackageExports.Proofs.SecondScan
import PackageExports.Proofs.RunningCalls
import PackageExports.Proofs.BatchOutcomes
import PackageExports.Proofs.SourceDirectories
import PackageExports.Proofs.Surroundings
import PackageExports.Proofs.LevelPaths
import PackageExports.Proofs.Confinement
import PackageExports.Proofs.CheckedValues
import PackageExports.Proofs.AddedFiles
import PackageExports.Proofs.Predictions
import PackageExports.Proofs.LoadedUsage
import PackageExports.Proofs.SavedUsage
import PackageExports.Proofs.SettingsFile
import PackageExports.Proofs.AcceptedManifests
import PackageExports.Proofs.RememberedFiles
import PackageExports.Proofs.ExtensionBuilds
import PackageExports.Proofs.DirectoryBuilds
import PackageExports.Proofs.OwnFiles
import PackageExports.Proofs.StrippedDirectories
import PackageExports.Proofs.DetectionOrder
import PackageExports.Proofs.RequiredFiles
import PackageExports.Proofs.SourceAgreement
import PackageExports.Proofs.CommentedText
import PackageExports.Proofs.TrailingCommas
import PackageExports.Proofs.Listings
import PackageExports.Proofs.SampledFiles
import PackageExports.Proofs.KeptStructure
import PackageExports.Proofs.EnclosingDirectories
import PackageExports.Proofs.Searches
import PackageExports.Proofs.Variations
import PackageExports.Proofs.FoundNames
import PackageExports.Proofs.DirectoryModules
import PackageExports.Proofs.RecommendedDirectories
import PackageExports.Proofs.BrowserTables
import PackageExports.Proofs.MergeOrder
import PackageExports.Proofs.DeclarationLookup
import PackageExports.Proofs.FailingLookups
import PackageExports.Proofs.Specifiers
import PackageExports.Proofs.BlockedEntries
import PackageExports.Proofs.ModuleWords
import PackageExports.Proofs.ForeignManifests
import PackageExports.Proofs.OwnManifests
import PackageExports.Proofs.Visits
import PackageExports.Proofs.ChangedExports
import PackageExports.Proofs.MappedSources
import PackageExports.Proofs.RepositoryWalks
import PackageExports.Proofs.SearchOrders
