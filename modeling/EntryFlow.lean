import EntryFlow.Main
import EntryFlow.Session
import EntryFlow.Proofs.Result
import EntryFlow.Proofs.Table
import EntryFlow.Proofs.WellTyped
import EntryFlow.Proofs.Totality
import EntryFlow.Proofs.Recursion
import EntryFlow.Proofs.Progress
import EntryFlow.Proofs.CallSite
import EntryFlow.Proofs.Discovery
import EntryFlow.Proofs.Coverage
import EntryFlow.Proofs.GraphEdges
import EntryFlow.Proofs.PlainNames
import EntryFlow.Proofs.Journal
import EntryFlow.Proofs.Roots
import EntryFlow.Proofs.RootTraces
import EntryFlow.Proofs.TracedGraph
import EntryFlow.Proofs.Trim
import EntryFlow.Proofs.Brackets
import EntryFlow.Proofs.CalledName
import EntryFlow.Proofs.NormalizedCalls
import EntryFlow.Proofs.CallText
import EntryFlow.Proofs.RootIsolation
import EntryFlow.Proofs.Interleaving
import EntryFlow.Proofs.ParallelRuns
import EntryFlow.Proofs.GraphInvariant
import EntryFlow.Proofs.GraphDocument
import EntryFlow.Proofs.Expansion
import EntryFlow.Proofs.LineBreaks
import EntryFlow.Proofs.RecordDocument
import EntryFlow.Proofs.CorpusOrder
import EntryFlow.Proofs.Disk
import EntryFlow.Proofs.Session
import EntryFlow.Proofs.DiagramFiles
import EntryFlow.Proofs.CorpusDocument
import EntryFlow.Proofs.SettingsDocument
import EntryFlow.Proofs.CommandRun
import EntryFlow.Proofs.IndexContents
import EntryFlow.Proofs.Inheritance
import EntryFlow.Proofs.TypeTrail
import EntryFlow.Proofs.WalkLoop
import EntryFlow.Proofs.EmptiedArguments
import EntryFlow.Proofs.BareNames
import EntryFlow.Proofs.Unresolved
import EntryFlow.Proofs.Distance
import EntryFlow.Proofs.Reachability
import EntryFlow.Proofs.PathSearch
import EntryFlow.Proofs.CallPaths
import EntryFlow.Proofs.CallCycles
import EntryFlow.Proofs.TraceOrder
import EntryFlow.Proofs.Labels
import EntryFlow.Proofs.DiagramLines
import EntryFlow.Proofs.ListedSteps
import EntryFlow.Proofs.FrameworkParticipants
import EntryFlow.Proofs.Preorder
import EntryFlow.Proofs.BodyScan
import EntryFlow.Proofs.DeclaredTypes
import EntryFlow.Proofs.IgnoredPaths
import EntryFlow.Proofs.SourceFiles
import EntryFlow.Proofs.IdentifierWords
import EntryFlow.Proofs.WordPattern
import EntryFlow.Proofs.RawTypes
import EntryFlow.Proofs.RenderedChains
import EntryFlow.Proofs.LowerCase
import EntryFlow.Proofs.SettingsRoundTrip
import EntryFlow.Proofs.SelfQualifiers
import EntryFlow.Proofs.WordPattern
