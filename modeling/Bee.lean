import Bee.Lib.Word
import Bee.Lib.AssocMap
import Bee.Lib.Codec
import Bee.Lib.Flow
import Bee.Lib.SpendLog
import Bee.Block.Address
import Bee.Block.Condition
import Bee.Block.Output
import Bee.Ternary.T5B1
import Bee.Block.Payload
import Bee.Block.Pack
import Bee.Block.Crypto
import Bee.Block.Semantic
import Bee.Block.Balance
import Bee.Block.Unpack
import Bee.Ledger.Utxo
import Bee.Ledger.Types
import Bee.Storage.Memory
import Bee.Ledger.Storage
import Bee.Ledger.WhiteFlag
import Bee.Ledger.NoDoubleSpend
import Bee.Ledger.Confirm
import Bee.Ledger.Overflow
import Bee.Protocol.Milestone
import Bee.Ledger.Balanced
import Bee.Ledger.Supply
import Bee.Ledger.Conservation
import Bee.Lib.Radix
import Bee.Ternary.Trit
import Bee.Ternary.B1T6
import Bee.Ternary.Convert
import Bee.Pow.Miner
import Bee.Ledger.Foundry
import Bee.Ledger.Merkle
import Bee.Ledger.MilestoneDiff
import Bee.Ledger.FoundrySerial
import Bee.Autopeering.PeerRing
import Bee.Autopeering.Query
import Bee.Protocol.PacketHandler
import Bee.Ledger.PastCone
import Bee.Ternary.Buffer
import Bee.Protocol.Propagator
import Bee.Lib.Search
import Bee.Protocol.Node
import Bee.Protocol.Packets
import Bee.Protocol.Peer
import Bee.Lib.Window
import Bee.Protocol.Hasher
import Bee.Tangle.Urts
