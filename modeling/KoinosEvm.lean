import KoinosEvm.Basic
import KoinosEvm.Contracts.PixelCanvas
import KoinosEvm.Engine.Crypto
import KoinosEvm.Engine.Database
import KoinosEvm.Engine.Handlers
import KoinosEvm.Engine.Koinos
import KoinosEvm.Engine.Messages
import KoinosEvm.Engine.Precompiles
import KoinosEvm.Engine.Proto
import KoinosEvm.Engine.ProtoIndexed
import KoinosEvm.Engine.Revm
import KoinosEvm.Engine.Start
import KoinosEvm.Engine.Tx
import KoinosEvm.Lib.Base64
import KoinosEvm.Lib.BigEndian
import KoinosEvm.Lib.BigInt
import KoinosEvm.Lib.Bitmap
import KoinosEvm.Lib.ByteText
import KoinosEvm.Lib.Checked
import KoinosEvm.Lib.Curve
import KoinosEvm.Lib.Fallible
import KoinosEvm.Lib.FifoCache
import KoinosEvm.Lib.Gate
import KoinosEvm.Lib.History
import KoinosEvm.Lib.Interact
import KoinosEvm.Lib.Lanes
import KoinosEvm.Lib.LeastServed
import KoinosEvm.Lib.Protobuf
import KoinosEvm.Lib.Radix
import KoinosEvm.Lib.Ratchet
import KoinosEvm.Lib.Rlp
import KoinosEvm.Lib.Schedule
import KoinosEvm.Lib.Table
import KoinosEvm.Lib.Tasks
import KoinosEvm.Lib.TokenBucket
import KoinosEvm.Lib.Unfold
import KoinosEvm.Lib.Where
import KoinosEvm.Lib.WordCounter
import KoinosEvm.Lib.Writes
import KoinosEvm.Proofs.Base58
import KoinosEvm.Proofs.Base64Lax
import KoinosEvm.Proofs.BlockBlooms
import KoinosEvm.Proofs.BlockHashes
import KoinosEvm.Proofs.Bloom
import KoinosEvm.Proofs.CallArgs
import KoinosEvm.Proofs.CanvasPixels
import KoinosEvm.Proofs.Chain
import KoinosEvm.Proofs.ClientIp
import KoinosEvm.Proofs.Commit
import KoinosEvm.Proofs.CommitUpdate
import KoinosEvm.Proofs.Cursor
import KoinosEvm.Proofs.CycleVisits
import KoinosEvm.Proofs.Dedupe
import KoinosEvm.Proofs.DoubleRelay
import KoinosEvm.Proofs.Downgrade
import KoinosEvm.Proofs.Duplicates
import KoinosEvm.Proofs.EcRecover
import KoinosEvm.Proofs.EngineReplies
import KoinosEvm.Proofs.EntryCoverage
import KoinosEvm.Proofs.EthCall
import KoinosEvm.Proofs.EthTx
import KoinosEvm.Proofs.EventRoundTrip
import KoinosEvm.Proofs.FailedReads
import KoinosEvm.Proofs.ForeignEvents
import KoinosEvm.Proofs.GetLogs
import KoinosEvm.Proofs.Hex
import KoinosEvm.Proofs.HostCalls
import KoinosEvm.Proofs.JsonRpc
import KoinosEvm.Proofs.Ledger
import KoinosEvm.Proofs.LiveNonce
import KoinosEvm.Proofs.LogTable
import KoinosEvm.Proofs.LogViews
import KoinosEvm.Proofs.LogsFeed
import KoinosEvm.Proofs.MetaEviction
import KoinosEvm.Proofs.MetaQueue
import KoinosEvm.Proofs.MintPlan
import KoinosEvm.Proofs.NewHeads
import KoinosEvm.Proofs.NextNonce
import KoinosEvm.Proofs.Numbering
import KoinosEvm.Proofs.OperatorNode
import KoinosEvm.Proofs.PendingExpiry
import KoinosEvm.Proofs.PixelCanvas
import KoinosEvm.Proofs.Placeholders
import KoinosEvm.Proofs.Placement
import KoinosEvm.Proofs.PollFairness
import KoinosEvm.Proofs.ProcessEntry
import KoinosEvm.Proofs.ProtoIterSafety
import KoinosEvm.Proofs.PushFilter
import KoinosEvm.Proofs.Quantities
import KoinosEvm.Proofs.RateLimit
import KoinosEvm.Proofs.RawTxExtraction
import KoinosEvm.Proofs.RePass
import KoinosEvm.Proofs.ReadYourWrites
import KoinosEvm.Proofs.ReceiptSummary
import KoinosEvm.Proofs.Relay
import KoinosEvm.Proofs.Replay
import KoinosEvm.Proofs.ReportedReceipt
import KoinosEvm.Proofs.ReportedStatus
import KoinosEvm.Proofs.Reserves
import KoinosEvm.Proofs.RlpEncoders
import KoinosEvm.Proofs.RlpFrames
import KoinosEvm.Proofs.RlpReader
import KoinosEvm.Proofs.RpcAdmission
import KoinosEvm.Proofs.SendRawTx
import KoinosEvm.Proofs.ServedCalls
import KoinosEvm.Proofs.SiblingBlock
import KoinosEvm.Proofs.StaleStorage
import KoinosEvm.Proofs.StateReads
import KoinosEvm.Proofs.StepDown
import KoinosEvm.Proofs.Store
import KoinosEvm.Proofs.SubmitEvents
import KoinosEvm.Proofs.SubmitStages
import KoinosEvm.Proofs.SubmitTxJson
import KoinosEvm.Proofs.SwapQuote
import KoinosEvm.Proofs.TestStore
import KoinosEvm.Proofs.TxCanonical
import KoinosEvm.Proofs.TxFields
import KoinosEvm.Proofs.TxPlan
import KoinosEvm.Proofs.TxViews
import KoinosEvm.Proofs.Varint
import KoinosEvm.Proofs.Views
import KoinosEvm.Proofs.Wire
import KoinosEvm.Proofs.WireCodec
import KoinosEvm.Proofs.WsIsolation
import KoinosEvm.Proofs.WsRequests
import KoinosEvm.Proofs.WsStream
import KoinosEvm.Proxy.Base58
import KoinosEvm.Proxy.BlockHash
import KoinosEvm.Proxy.Bloom
import KoinosEvm.Proxy.CreateAddress
import KoinosEvm.Proxy.Db
import KoinosEvm.Proxy.EngineProto
import KoinosEvm.Proxy.EthTx
import KoinosEvm.Proxy.Events
import KoinosEvm.Proxy.GetLogs
import KoinosEvm.Proxy.Hex
import KoinosEvm.Proxy.Indexer
import KoinosEvm.Proxy.Json
import KoinosEvm.Proxy.JsonRpc
import KoinosEvm.Proxy.KoinosTx
import KoinosEvm.Proxy.LogTable
import KoinosEvm.Proxy.NewHeads
import KoinosEvm.Proxy.Params
import KoinosEvm.Proxy.PendingNonce
import KoinosEvm.Proxy.ProcessEntry
import KoinosEvm.Proxy.Quantities
import KoinosEvm.Proxy.RateLimit
import KoinosEvm.Proxy.Receipts
import KoinosEvm.Proxy.Relay
import KoinosEvm.Proxy.RlpIndexed
import KoinosEvm.Proxy.RunCycle
import KoinosEvm.Proxy.SendRawTx
import KoinosEvm.Proxy.Server
import KoinosEvm.Proxy.StateReads
import KoinosEvm.Proxy.TxMetaStore
import KoinosEvm.Proxy.TxViews
import KoinosEvm.Proxy.WsConnection
import KoinosEvm.Proxy.WsFeed
import KoinosEvm.Ui.V3Math
