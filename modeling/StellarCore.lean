import StellarCore.Scp.Agreement
import StellarCore.Scp.PreparedValue
import StellarCore.Scp.Restart
import StellarCore.Scp.Validity
import StellarCore.Buckets.EntryIdentity
import StellarCore.Buckets.LedgerRanges
import StellarCore.Buckets.RestartMerges
import StellarCore.Buckets.SkipList
import StellarCore.Buckets.TruncatedFiles
import StellarCore.Catchup.CatchupRange
import StellarCore.Crypto.CanonicalKeys
import StellarCore.Lib.Layers
import StellarCore.Quorum.CompleteSlices
import StellarCore.Quorum.PermutationOrder
import StellarCore.Quorum.Intersection
import StellarCore.Ledger.CacheCoherence
import StellarCore.Ledger.DeltaNesting
import StellarCore.Herder.EnvelopeIntake
import StellarCore.Herder.LocalQuorumSet
import StellarCore.History.PublishQueue
import StellarCore.Overlay.FloodRuns
import StellarCore.Overlay.KeyAgreement
import StellarCore.Scp.NominationRuns
import StellarCore.Scp.SliceDuality
import StellarCore.Scp.IntervalSearch
import StellarCore.Herder.SameOrder
import StellarCore.Scp.QuorumSearch
import StellarCore.Scp.NormalizeQSet
import StellarCore.Transactions.AssetColumns
import StellarCore.Transactions.BigDivide
import StellarCore.Transactions.EntryUpdates
import StellarCore.Transactions.ManageOffer
import StellarCore.Transactions.ManageOfferSettlement
import StellarCore.Transactions.MinBalance
import StellarCore.Transactions.SignatureWeights
import StellarCore.Transactions.SignerDiff
import StellarCore.Transactions.BookWalk
import StellarCore.Transactions.CrossOffer
import StellarCore.Transactions.PaymentRefines
import StellarCore.Transactions.PathSettlement
import StellarCore.Scp.CounterWrap
import StellarCore.Scp.NominationOrder
import StellarCore.Herder.PendingTransactions
import StellarCore.Scp.SmallestBlocking
import StellarCore.Ledger.SyncStates
import StellarCore.Scp.RecursionBound
import StellarCore.Herder.ChargedFees
import StellarCore.Transactions.AppliedTransactions
import StellarCore.Herder.LedgerCloses
