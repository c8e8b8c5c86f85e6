import Blq.Proof.AccountRows
import Blq.Proof.BaseFee
import Blq.Proof.BodyRoots
import Blq.Proof.CrashInsertion
import Blq.Proof.DirectExtension
import Blq.Proof.EstimateGas
import Blq.Proof.FilterQuery
import Blq.Proof.Framing
import Blq.Proof.Gateway
import Blq.Proof.InMemoryState
import Blq.Proof.LockOrder
import Blq.Proof.Mempool
import Blq.Proof.Mining
import Blq.Proof.PendingFilter
import Blq.Proof.RecordedWork
import Blq.Proof.Sealing
import Blq.Proof.Staging
import Blq.Proof.StateRoots
import Blq.Proof.SuffixJournal
import Blq.Proof.SupplyIndex
import Blq.Proof.TargetRun
import Blq.Proof.Transfers
import Blq.Proof.Work
