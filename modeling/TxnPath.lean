import TxnPath.CommandLine.Shelf
import TxnPath.Main
import TxnPath.Snapshot.Catalog
import TxnPath.Snapshot.Graph
import TxnPath.Snapshot.Site
import TxnPath.Work.Script
import TxnPath.Site.Run
import TxnPath.Proofs.Txn.Conservation
import TxnPath.Proofs.Txn.Filing
import TxnPath.Proofs.Txn.HandingOut
import TxnPath.Proofs.Txn.EarlyResults
import TxnPath.Proofs.Site.Settlement
import TxnPath.Proofs.Site.Matching
import TxnPath.Proofs.Graph.Cycles
import TxnPath.Proofs.Graph.PathSums
import TxnPath.Proofs.Graph.AbortRate
import TxnPath.Proofs.Forecast.Traffic
import TxnPath.Proofs.Walk.Itinerary
import TxnPath.Proofs.Site.Prepare
import TxnPath.Proofs.Forecast.Filled
import TxnPath.Proofs.Forecast.Online
import TxnPath.Proofs.Forecast.Training
import TxnPath.Proofs.Archive.RoundTrip
import TxnPath.Proofs.Site.Completion
import TxnPath.Proofs.Txn.Acts
import TxnPath.Proofs.Txn.Waking
import TxnPath.Proofs.Site.Endings
import TxnPath.Proofs.Site.Lockstep
import TxnPath.Proofs.Graph.Sealed
import TxnPath.Proofs.Forecast.Upkeep
import TxnPath.Proofs.Site.FirstError
import TxnPath.Proofs.Walk.Completeness
import TxnPath.Proofs.Walk.Soundness
import TxnPath.Proofs.Forecast.Increments
import TxnPath.Proofs.Graph.Balance
import TxnPath.Proofs.Graph.Navigable
import TxnPath.Proofs.Walk.Forced
import TxnPath.Proofs.Design.Apply
import TxnPath.Proofs.Design.Generate
import TxnPath.Proofs.Design.SinglePartition
import TxnPath.Proofs.Graph.Tracked
import TxnPath.Proofs.Forecast.Alongside
import TxnPath.Proofs.Forecast.Journal
import TxnPath.Proofs.Reuse
import TxnPath.Proofs.Forecast.Reuse
import TxnPath.Proofs.Graph.Account
import TxnPath.Proofs.Graph.Renaming
import TxnPath.Proofs.Graph.Correspondence
import TxnPath.Proofs.Forecast.Permutation
import TxnPath.Proofs.Json.Scalars
import TxnPath.Proofs.Json.Values
import TxnPath.Proofs.Json.Record
import TxnPath.Proofs.Digest
import TxnPath.Proofs.Archive.Codec
import TxnPath.Proofs.Archive.Trained
import TxnPath.Proofs.Forecast.Lending
import TxnPath.Proofs.Txn.Outputs
import TxnPath.Proofs.Txn.OnePerStatement
import TxnPath.Proofs.Site.Verdict
import TxnPath.Proofs.Walk.Greedy
import TxnPath.Proofs.Walk.Standing
import TxnPath.Proofs.Walk.Trail
import TxnPath.Proofs.Walk.ReadOnly
import TxnPath.Proofs.Walk.Foretold
import TxnPath.Proofs.Graph.Rejected
import TxnPath.Proofs.Graph.Staleness
import TxnPath.Proofs.Graph.Unchanged
import TxnPath.Proofs.Router.Coverage
import TxnPath.Proofs.Design.Replanning
import TxnPath.Proofs.Pool
import TxnPath.Proofs.Histogram.Agreement
import TxnPath.Proofs.Mapping.Document
import TxnPath.Proofs.Design.Interrupted
import TxnPath.Proofs.Design.RoutingParameter
import TxnPath.Proofs.Trace
