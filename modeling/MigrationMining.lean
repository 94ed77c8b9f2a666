import MigrationMining.Adaptation
import MigrationMining.CallGraph
import MigrationMining.Candidate
import MigrationMining.CodeModel.Archives
import MigrationMining.CodeModel.Backend
import MigrationMining.CodeModel.Basic
import MigrationMining.CodeModel.Cache
import MigrationMining.CodeModel.Failure
import MigrationMining.CodeModel.Focus
import MigrationMining.CodeModel.Program
import MigrationMining.CodeModel.Sidecar
import MigrationMining.Console.Arguments
import MigrationMining.Console.Pairs
import MigrationMining.Console.Plain
import MigrationMining.Console.Platform
import MigrationMining.Console.Rendering
import MigrationMining.Console.Report
import MigrationMining.Console.Run
import MigrationMining.Console.Table
import MigrationMining.Coordinate
import MigrationMining.Csv
import MigrationMining.DatasetFiles
import MigrationMining.Decimal.Binary64
import MigrationMining.Decimal.Places
import MigrationMining.Decimal.Shortest
import MigrationMining.DependencyDelta
import MigrationMining.DependencyGraph
import MigrationMining.Diagnostic
import MigrationMining.Digest
import MigrationMining.Distinct
import MigrationMining.Failure
import MigrationMining.FileStore
import MigrationMining.Json.Basic
import MigrationMining.Json.Printer
import MigrationMining.Json.Reader
import MigrationMining.Json.Record
import MigrationMining.Json.Sorted
import MigrationMining.Main
import MigrationMining.Markup.Leaf
import MigrationMining.Markup.Span
import MigrationMining.Path
import MigrationMining.Pipeline.Analysis
import MigrationMining.Pipeline.Dataset
import MigrationMining.Pipeline.Download
import MigrationMining.Pipeline.Journal
import MigrationMining.Pipeline.Migration
import MigrationMining.Pipeline.Overlap
import MigrationMining.Pipeline.Services
import MigrationMining.Pipeline.Setup
import MigrationMining.Pom
import MigrationMining.Proofs.AdaptationOrigin
import MigrationMining.Proofs.AdaptedCallers
import MigrationMining.Proofs.AnalysisRun
import MigrationMining.Proofs.AnalysisTrace
import MigrationMining.Proofs.ArchiveNames
import MigrationMining.Proofs.ArchivePlaces
import MigrationMining.Proofs.Attempts
import MigrationMining.Proofs.CacheEntry
import MigrationMining.Proofs.CacheTransparency
import MigrationMining.Proofs.CallLines
import MigrationMining.Proofs.ClientDependencies
import MigrationMining.Proofs.ClientMoves
import MigrationMining.Proofs.CompletionOrder
import MigrationMining.Proofs.ConcurrentPairs
import MigrationMining.Proofs.CoordinateText
import MigrationMining.Proofs.CsvTables
import MigrationMining.Proofs.CutEntries
import MigrationMining.Proofs.DependencyGroups
import MigrationMining.Proofs.DirectDependencies
import MigrationMining.Proofs.DistinctVersions
import MigrationMining.Proofs.DownloadQueue
import MigrationMining.Proofs.DownloadReach
import MigrationMining.Proofs.FactOrder
import MigrationMining.Proofs.FailedAnalysis
import MigrationMining.Proofs.FetchLocks
import MigrationMining.Proofs.FetchedArchive
import MigrationMining.Proofs.FileText
import MigrationMining.Proofs.FirstAndLast
import MigrationMining.Proofs.FirstMention
import MigrationMining.Proofs.FocusFiles
import MigrationMining.Proofs.FocusText
import MigrationMining.Proofs.FoundClients
import MigrationMining.Proofs.GraphLookup
import MigrationMining.Proofs.JsonText
import MigrationMining.Proofs.LinkCounts
import MigrationMining.Proofs.LinkOrder
import MigrationMining.Proofs.LinkTally
import MigrationMining.Proofs.ListedCallers
import MigrationMining.Proofs.ListedReleases
import MigrationMining.Proofs.LoadedSettings
import MigrationMining.Proofs.LoneFetch
import MigrationMining.Proofs.LongerTexts
import MigrationMining.Proofs.MatrixViews
import MigrationMining.Proofs.MirroredDelta
import MigrationMining.Proofs.NamedFiles
import MigrationMining.Proofs.NearestStore
import MigrationMining.Proofs.Occurrences
import MigrationMining.Proofs.OutputFiles
import MigrationMining.Proofs.OutputNames
import MigrationMining.Proofs.OwnCoordinates
import MigrationMining.Proofs.OwnText
import MigrationMining.Proofs.PageWalk
import MigrationMining.Proofs.PairAttempt
import MigrationMining.Proofs.PairLibraries
import MigrationMining.Proofs.PairOutcome
import MigrationMining.Proofs.PairOutput
import MigrationMining.Proofs.PairReplay
import MigrationMining.Proofs.PathComponents
import MigrationMining.Proofs.PathOrder
import MigrationMining.Proofs.Pieces
import MigrationMining.Proofs.Placeholders
import MigrationMining.Proofs.Ranking
import MigrationMining.Proofs.RecordedLinks
import MigrationMining.Proofs.ReleaseDirectories
import MigrationMining.Proofs.Requests
import MigrationMining.Proofs.ResolvedDependencies
import MigrationMining.Proofs.SavedFiles
import MigrationMining.Proofs.ScannedLines
import MigrationMining.Proofs.ScratchFiles
import MigrationMining.Proofs.ScratchNames
import MigrationMining.Proofs.ServiceTrace
import MigrationMining.Proofs.SettingValues
import MigrationMining.Proofs.SkippedPairs
import MigrationMining.Proofs.SnapshotIdentity
import MigrationMining.Proofs.SparedFiles
import MigrationMining.Proofs.StableSort
import MigrationMining.Proofs.SteadyWeb
import MigrationMining.Proofs.StoredAdaptations
import MigrationMining.Proofs.StoredAnalysis
import MigrationMining.Proofs.StoredCandidates
import MigrationMining.Proofs.StoredModel
import MigrationMining.Proofs.SubstitutionRounds
import MigrationMining.Proofs.TreatedArchives
import MigrationMining.Proofs.UncoveredTargets
import MigrationMining.Proofs.UnreadablePom
import MigrationMining.Proofs.UsageListing
import MigrationMining.Proofs.VariableFiles
import MigrationMining.Proofs.VersionPairs
import MigrationMining.Proofs.VersionTexts
import MigrationMining.Proofs.WholeResponses
import MigrationMining.Proofs.WorldServices
import MigrationMining.Proofs.WrittenContent
import MigrationMining.Proofs.WrittenPairs
import MigrationMining.Ratio
import MigrationMining.ReleaseIndex
import MigrationMining.Repository.Inflight
import MigrationMining.Repository.Layout
import MigrationMining.Repository.Lookup
import MigrationMining.Settings.Basic
import MigrationMining.Settings.Check
import MigrationMining.Settings.Document
import MigrationMining.Settings.Dotenv
import MigrationMining.Settings.Environment
import MigrationMining.Settings.Load
import MigrationMining.Settings.Readers
import MigrationMining.Shell.Run
import MigrationMining.Shell.Script
import MigrationMining.Shell.Utility
import MigrationMining.Statistics
import MigrationMining.Text.Blank
import MigrationMining.Text.Encoding
import MigrationMining.Text.Number
import MigrationMining.Text.Pieces
import MigrationMining.Text.Substitution
import MigrationMining.Text.Width
import MigrationMining.Toml.Basic
import MigrationMining.Toml.Reader
import MigrationMining.Toml.Scalar
import MigrationMining.UsageMatrix
import MigrationMining.UsagePage
import MigrationMining.Web.Client
import MigrationMining.Web.Fetch
import MigrationMining.Web.FetchFailure
import MigrationMining.Web.Response
import MigrationMining.Web.Retry
import MigrationMining.Web.Throttle
import MigrationMining.Web.Url
import MigrationMining.World
