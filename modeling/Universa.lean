import Universa.Boss.StreamMode
import Universa.Js.DeltaCarries
import Universa.Contracts.ContractDelta
import Universa.Contracts.PermittedChanges
import Universa.Contracts.ChangeNumber
import Universa.Contracts.ModifyData
import Universa.Contracts.Check
import Universa.Contracts.NoInflation
import Universa.Contracts.TransactionPack
import Universa.Contracts.RoleTermination
import Universa.Node.Resync
import Universa.Node.Sanitation
import Universa.Node.FindOrCreate
import Universa.Ubot.CommonCortege
import Universa.Ubot.MutualQuorum
import Universa.Ubot.CloudMethod
import Universa.Ubot.StorageRead
import Universa.Ubot.WriteSingleStorage
import Universa.Network.Bookkeeping
import Universa.Node.PaysOnce
import Universa.Services.NameAllocation
import Universa.Services.FollowerContract
import Universa.Services.FollowerCallbacks
import Universa.Contracts.QuantaLimit
import Universa.Contracts.Parcel
import Universa.Js.Arithmetic
import Universa.Services.UnsContract
import Universa.Services.SlotContract
import Universa.Services.SlotStorages
import Universa.Services.EnvironmentSharing
import Universa.Services.EnvironmentStore
import Universa.Services.Subscribers
import Universa.Lib.Rows
import Universa.Lib.OrderedMap
import Universa.Lib.SharedObjects
import Universa.Node.CommitTree
import Universa.Node.ArrayFindOrCreate
import Universa.Contracts.Swap
import Universa.Contracts.Matching
import Universa.Contracts.QuorumVote
import Universa.Js.Equivalence
import Universa.Contracts.Serialization
import Universa.Contracts.ExpressionValue
import Universa.Node.Consensus
import Universa.Contracts.CanPerform
import Universa.Crypto.Safe58
import Universa.Crypto.KeyAddress
import Universa.Contracts.CommonParentheses
import Universa.Lib.ValueStream
import Universa.Network.Notification
import Universa.Network.NotificationWire
import Universa.Contracts.Compound
import Universa.Contracts.CompoundGivesBack
import Universa.Ubot.StorageRecords
import Universa.Ubot.StorageRecordsAgree
import Universa.Contracts.TokenHistory
import Universa.Js.Timers
import Universa.Js.Lock
import Universa.Crypto.SymmetricKey
