import QuantBTC.Consensus.Subsidy
import QuantBTC.Dag.Cluster
import QuantBTC.Dag.DepthCap
import QuantBTC.Dag.Mergeset
import QuantBTC.Dag.Overflow
import QuantBTC.Dag.ScoreOrder
import QuantBTC.Dag.Search
import QuantBTC.Dag.TipUndo
import QuantBTC.Dag.TopologicalOrder
import QuantBTC.Htlc.Independence
import QuantBTC.Net.Redownload
import QuantBTC.Node.AcceptanceOrder
import QuantBTC.Node.AncestorQuery
import QuantBTC.Node.BlueWork
import QuantBTC.Node.Candidates
import QuantBTC.Node.Deferred
import QuantBTC.Node.DiskIndex
import QuantBTC.Node.Mining
import QuantBTC.Node.PqcPrecheck
import QuantBTC.Node.Restart
import QuantBTC.Node.StoredHeaders
import QuantBTC.Node.Tips
import QuantBTC.Pool.Assembly
import QuantBTC.Pool.Branches
import QuantBTC.Pool.CreditedDifficulty
import QuantBTC.Pool.Payouts
import QuantBTC.Pool.Replay
import QuantBTC.Pow.LoadCap
import QuantBTC.Pow.Mineable
import QuantBTC.Pow.Monotone
import QuantBTC.Pow.NoWrap
import QuantBTC.Pow.Presync
import QuantBTC.Pow.Schedule
import QuantBTC.Pqc.HybridKey
import QuantBTC.Pqc.Manager
import QuantBTC.Primitives.BlockSerialization
import QuantBTC.Script.HybridBinding
import QuantBTC.Script.HybridWitness
import QuantBTC.Script.SigCache
import QuantBTC.Wallet.Encryption
import QuantBTC.Wallet.FeeEstimate
import QuantBTC.Wallet.Psbt
import QuantBTC.Wallet.Reload
import QuantBTC.Wallet.Unlocking
