import Ethiso.Framework.Run
import Ethiso.Contracts.PaymentService
import Ethiso.Framework.CreditLedger
import Ethiso.Contracts.EventLog
import Ethiso.Contracts.OwnFigures
import Ethiso.Contracts.LimitSafety
import Ethiso.Contracts.Ownership
import Ethiso.Events.PendingEvents
import Ethiso.Framework.Forest
import Ethiso.Events.Delivery
import Ethiso.Events.BlockTree
import Ethiso.Events.Indexes
import Ethiso.Events.NewBlock
import Ethiso.Framework.ConfirmedWindow
import Ethiso.Events.Window
import Ethiso.Events.ConfirmedChain
import Ethiso.Events.SkippedBlocks
import Ethiso.Events.DoubleDelivery
import Ethiso.Events.AgreeingIndexes
import Ethiso.Events.ForeignLogs
import Ethiso.Events.Attempts
import Ethiso.Events.FailingHandlers
import Ethiso.Events.ImportFailures
import Ethiso.Contracts.ModifiedEvents
import Ethiso.Contracts.PaymentOutcome
import Ethiso.Contracts.Renaming
import Ethiso.Domain.TrustlineValue
import Ethiso.Domain.SameMachine
import Ethiso.Framework.HighWater
import Ethiso.Domain.BoundedDebt
import Ethiso.Framework.Budget
import Ethiso.Domain.Splitting
import Ethiso.Abi.Conformance
import Ethiso.Abi.SignedIntegers
import Ethiso.Abi.NestedArrays
import Ethiso.Abi.Decoders
import Ethiso.Abi.DynamicBytes
import Ethiso.Abi.Room
import Ethiso.Framework.Promises
import Ethiso.Service.EchoBot
import Ethiso.Service.Mirroring
import Ethiso.Service.PaymentFutures
import Ethiso.Service.PaymentListener
import Ethiso.Service.TruthfulFutures
import Ethiso.Service.AddressIdentity
import Ethiso.Framework.Custody
import Ethiso.Client.Ethereum
import Ethiso.Client.Custody
import Ethiso.Client.Nonces
import Ethiso.Service.FailedPayments
import Ethiso.Rpc.Replies
import Ethiso.Rpc.Isolation
import Ethiso.Framework.Overwrites
import Ethiso.Rpc.JsonRpcClient
import Ethiso.Iso.StatusReports
import Ethiso.Iso.LedgerTrip
import Ethiso.Rpc.HandlerTables
import Ethiso.Rpc.SharedService
import Ethiso.Client.ReadContract
import Ethiso.Client.FlattenedOnce
import Ethiso.Client.FlattenedTokens
import Ethiso.Service.PaymentListenerWebSocket
import Ethiso.Framework.Interference
import Ethiso.Framework.Numbering
import Ethiso.Service.StartUp
import Ethiso.Service.StartUpInvariant
import Ethiso.Service.OneDeployment
import Ethiso.Abi.EventLogs
import Ethiso.Service.ContractLogs
import Ethiso.Service.ConfirmedEvents
import Ethiso.Framework.Positions
import Ethiso.Service.ConfirmedPayments
import Ethiso.Events.BlockPoller
import Ethiso.Rpc.InMemory
import Ethiso.Rpc.RemoteCalls
import Ethiso.Service.EchoPayments
