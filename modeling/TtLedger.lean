import TtLedger.Foundations.Prog
import TtLedger.Foundations.Guarded
import TtLedger.Foundations.Interleave
import TtLedger.Foundations.Table
import TtLedger.Foundations.StableSort
import TtLedger.Foundations.Ranking
import TtLedger.Foundations.Relational
import TtLedger.Foundations.Dict
import TtLedger.Foundations.Flows
import TtLedger.Foundations.Decimals
import TtLedger.Foundations.Greedy
import TtLedger.Foundations.Truncate
import TtLedger.Foundations.ClampedWalk
import TtLedger.Rows
import TtLedger.Store.Memory
import TtLedger.Store.Bands
import TtLedger.Store.BandLaws
import TtLedger.Store.Calls
import TtLedger.Store.Columns
import TtLedger.Foundations.Text
import TtLedger.Ingest.Net
import TtLedger.Ingest.Replay
import TtLedger.Ingest.Strategy
import TtLedger.Ingest.Route
import TtLedger.Ingest.Exit
import TtLedger.Ingest.Lapse
import TtLedger.Ingest.NetLaws
import TtLedger.Ingest.Reconcile
import TtLedger.Ingest.ReadOnly
import TtLedger.Ingest.GroupWrites
import TtLedger.Ingest.Runs
import TtLedger.Ingest.PassRuns
import TtLedger.Ingest.Frames
import TtLedger.Ingest.Membership
import TtLedger.Ingest.RouteLaws
import TtLedger.Ingest.DrawLaws
import TtLedger.Ingest.WalkLaws
import TtLedger.Ingest.Attaches
import TtLedger.Ingest.LinkLaws
import TtLedger.Ingest.LapseLaws
import TtLedger.Ingest.HealLaws
import TtLedger.Ingest.PassLaws
import TtLedger.Ingest.IntentLaws
import TtLedger.Ingest.Coverage
import TtLedger.Ingest.Passes
import TtLedger.Ingest.Scope
import TtLedger.Ingest.ScopeWalk
import TtLedger.Ingest.Consistency
import TtLedger.Repositories
import TtLedger.Ingest.Imports
import TtLedger.Ingest.Remap
import TtLedger.Sdk
import TtLedger.Guarantees.Attribution
import TtLedger.Guarantees.Fixpoint
import TtLedger.Guarantees.Stamping
import TtLedger.Guarantees.LateTruth
import TtLedger.Guarantees.LapseExposure
import TtLedger.Ingest.Rebuild
import TtLedger.Ingest.RebuildAccount
import TtLedger.Ingest.RebuildLaws
import TtLedger.Ingest.LotMoves
import TtLedger.Ingest.DecimalReplay
import TtLedger.Guarantees.Conservation
import TtLedger.Guarantees.PaperCash
import TtLedger.Ingest.Backend
import TtLedger.Guarantees.Backends
import TtLedger.Guarantees.AccountLinks
import TtLedger.Guarantees.OperatorEdits
import TtLedger.Guarantees.Pinned
import TtLedger.Guarantees.PreAttribution
import TtLedger.Guarantees.Overlap
import TtLedger.Store.OpenLegs
import TtLedger.Store.OpenLegLaws
import TtLedger.Guarantees.OpenReads
import TtLedger.Guarantees.FillConfirmation
import TtLedger.Guarantees.RebuildExact
import TtLedger.Guarantees.ClosedGroups
import TtLedger.Foundations.Pool
import TtLedger.Ingest.Tasks
import TtLedger.Ingest.TaskCalls
import TtLedger.Guarantees.Linkage
import TtLedger.Guarantees.FrozenFields
import TtLedger.Guarantees.KeptFields
import TtLedger.Foundations.Trace
import TtLedger.Ingest.StreamEntry
import TtLedger.Ingest.StreamRun
import TtLedger.Ingest.StreamLaws
import TtLedger.Guarantees.AckAfterWrite
import TtLedger.Guarantees.PoisonEntries
import TtLedger.Foundations.LastWriter
import TtLedger.Ingest.StreamApply
import TtLedger.Guarantees.Redelivery
import TtLedger.Guarantees.TransactionFilters
import TtLedger.Guarantees.BandPaging
import TtLedger.Guarantees.BandPartition
import TtLedger.Guarantees.ExitAccounting
import TtLedger.Guarantees.Routing
import TtLedger.Guarantees.Fallback
import TtLedger.Guarantees.CloseCauses
import TtLedger.Guarantees.SettledOnce
import TtLedger.Guarantees.CashPairs
import TtLedger.Guarantees.PriceTracksNet
import TtLedger.Guarantees.ReplayViews
import TtLedger.Guarantees.RoundTrips
import TtLedger.Foundations.Extremes
import TtLedger.Guarantees.FillFields
import TtLedger.Guarantees.OrderResync
import TtLedger.Ingest.Detect
import TtLedger.Guarantees.StuckGroups
import TtLedger.Guarantees.CoveredBy
import TtLedger.Ingest.RegroupLaws
import TtLedger.Guarantees.RegroupPnl
import TtLedger.Guarantees.TieOrder
import TtLedger.Guarantees.Rolls
import TtLedger.Guarantees.RollGraph
import TtLedger.Foundations.Throttle
import TtLedger.Ingest.Balances
import TtLedger.Guarantees.BalanceThrottle
import TtLedger.Foundations.GapClusters
import TtLedger.Guarantees.Clusters
import TtLedger.Guarantees.GroupWalk
import TtLedger.Ingest.StrategyLaws
import TtLedger.Guarantees.RowOrder
import TtLedger.Guarantees.StrategyLabels
import TtLedger.Foundations.Rounding
import TtLedger.Guarantees.MoneyExact
import TtLedger.Identity.Accounts
import TtLedger.Guarantees.AccountMap
import TtLedger.Foundations.Backtrack
import TtLedger.Foundations.Numerals
import TtLedger.Identity.Canonical
import TtLedger.Identity.Contracts
import TtLedger.Identity.SymbolText
import TtLedger.Guarantees.ContractIds
import TtLedger.Guarantees.OccRoundTrip
import TtLedger.Foundations.Statements
import TtLedger.Store.Sql
import TtLedger.Store.SqlLaws
import TtLedger.Store.SqlLinks
import TtLedger.Store.SqlReads
import TtLedger.Guarantees.StoreAgreement
import TtLedger.Foundations.Swarm
import TtLedger.Ingest.StreamGroup
import TtLedger.Guarantees.NothingSkipped
import TtLedger.Guarantees.Reclaim
import TtLedger.Store.Structure
import TtLedger.Guarantees.StructureReads
import TtLedger.Guarantees.ImportedStructure
import TtLedger.Ingest.Growth
import TtLedger.Foundations.Provenance
import TtLedger.Ingest.References
import TtLedger.Ingest.PassRefs
import TtLedger.Ingest.TaskRefs
import TtLedger.Guarantees.Integrity
import TtLedger.Ingest.Footprint
import TtLedger.Guarantees.CashTruth
import TtLedger.Foundations.Paging
import TtLedger.Ingest.Client
import TtLedger.Ingest.ClientLaws
import TtLedger.Ingest.Pull
import TtLedger.Ingest.PullLaws
import TtLedger.Guarantees.CompletePull
