import ReactNativeIroh.Lib.Machine
import ReactNativeIroh.Lib.Channel
import ReactNativeIroh.Lib.Ownership
import ReactNativeIroh.Lib.BigEndian
import ReactNativeIroh.Lib.Delimited
import ReactNativeIroh.Lib.Separated
import ReactNativeIroh.Lib.Precedence
import ReactNativeIroh.Lib.Handover
import ReactNativeIroh.Core.Error
import ReactNativeIroh.Core.Utf8
import ReactNativeIroh.Core.Alpns
import ReactNativeIroh.Core.Path
import ReactNativeIroh.Core.CollectionShare
import ReactNativeIroh.Core.Export
import ReactNativeIroh.Core.Registry
import ReactNativeIroh.Core.Coalesce
import ReactNativeIroh.Core.Transfers
import ReactNativeIroh.Core.TransferSteps
import ReactNativeIroh.Core.TransferRegistry
import ReactNativeIroh.Core.CancelProtocol
import ReactNativeIroh.Core.Quiescence
import ReactNativeIroh.Core.Subscriptions
import ReactNativeIroh.Core.HandleOrder
import ReactNativeIroh.Core.InboundQueue
import ReactNativeIroh.Core.InboundSteps
import ReactNativeIroh.Core.InboundLaw
import ReactNativeIroh.Core.ListenAgain
import ReactNativeIroh.Core.Frame
import ReactNativeIroh.Core.ReadFramed
import ReactNativeIroh.Core.AcceptTask
import ReactNativeIroh.Core.ConnectionClose
import ReactNativeIroh.Core.SendTasks
import ReactNativeIroh.Core.SendOrder
import ReactNativeIroh.Core.SendFrames
import ReactNativeIroh.Ts.Number
import ReactNativeIroh.Ts.JsString
import ReactNativeIroh.Ts.JoinedList
import ReactNativeIroh.Ts.Alpns
import ReactNativeIroh.Ts.IrohError
import ReactNativeIroh.Ts.Manifest
import ReactNativeIroh.Ts.Json
import ReactNativeIroh.Ts.JsonRoundTrip
import ReactNativeIroh.Core.EndpointAddr
import ReactNativeIroh.Ts.AddressRoundTrip
import ReactNativeIroh.Ts.SharedCollection
import ReactNativeIroh.Ts.CollectionFiles
import ReactNativeIroh.Ts.WaiterQueue
import ReactNativeIroh.Ts.MessageQueue
import ReactNativeIroh.Ts.QueueContents
import ReactNativeIroh.Ts.MessageQueueLaw
import ReactNativeIroh.Ts.Watchable
import ReactNativeIroh.Ts.Backlog
import ReactNativeIroh.Ts.Stream
import ReactNativeIroh.Ts.OrderlyEnd
import ReactNativeIroh.Ts.Connection
import ReactNativeIroh.Ts.ConnectionRun
import ReactNativeIroh.Ts.IncomingStreams
import ReactNativeIroh.Ts.StreamFailure
import ReactNativeIroh.Ts.StreamOwnership
import ReactNativeIroh.Ts.Listener
import ReactNativeIroh.Ts.ListenerRun
import ReactNativeIroh.Ts.AddressWatch
import ReactNativeIroh.Ts.Transfer
import ReactNativeIroh.Ts.Downloads
import ReactNativeIroh.Ts.Gossip
import ReactNativeIroh.Ts.BridgeLines
import ReactNativeIroh.Ts.EndpointStreams
import ReactNativeIroh.Ts.Endpoint
import ReactNativeIroh.Ts.EndpointTeardown
import ReactNativeIroh.Ts.DownloadGate
import ReactNativeIroh.Ts.Collection
import ReactNativeIroh.Ts.CollectionContainment
import ReactNativeIroh.Ts.CollectionChildren
import ReactNativeIroh.Ts.CollectionMoves
import ReactNativeIroh.Ts.CollectionVerdict
import ReactNativeIroh.Ts.CollectionStart
import ReactNativeIroh.Ts.CollectionLaw
import ReactNativeIroh.Ts.CollectionUnstartable
import ReactNativeIroh.Ts.TransferRun
import ReactNativeIroh.Ts.StreamCourse
import ReactNativeIroh.Ts.StreamBreak
import ReactNativeIroh.Ts.Outlived
import ReactNativeIroh.Core.DownloadInner
import ReactNativeIroh.Lib.Conflation
import ReactNativeIroh.Core.ErrorChain
import ReactNativeIroh.Core.RegistryRun
import ReactNativeIroh.Core.CoalescerRun
import ReactNativeIroh.Core.JsonEncoding
import ReactNativeIroh.Ts.GossipRun
import ReactNativeIroh.Ts.Attachment
import ReactNativeIroh.Ts.AddressWatchLaw
import ReactNativeIroh.Ts.ConflatingLaw
import ReactNativeIroh.Ts.ListenerLoop
import ReactNativeIroh.Ts.ReentrantPush
import ReactNativeIroh.Ts.Registrations
import ReactNativeIroh.Lib.Retained
import ReactNativeIroh.Core.ReadTask
import ReactNativeIroh.Core.RawStream
import ReactNativeIroh.Core.ReadLaw
import ReactNativeIroh.Core.ReadCalls
import ReactNativeIroh.Lib.Linked
import ReactNativeIroh.Core.StreamPair
import ReactNativeIroh.Core.GossipTopic
import ReactNativeIroh.Core.GossipBooks
import ReactNativeIroh.Core.GossipLaw
import ReactNativeIroh.Core.EndpointConfig
import ReactNativeIroh.Ts.EndpointOptions
import ReactNativeIroh.Lib.Effect
import ReactNativeIroh.Ts.UseEndpoint
import ReactNativeIroh.Ts.AppendCapped
import ReactNativeIroh.Ts.UseGossip
import ReactNativeIroh.Ts.UseTransfer
import ReactNativeIroh.Ts.StreamHosts
import ReactNativeIroh.Core.GossipSteps
import ReactNativeIroh.Ts.GossipHeard
import ReactNativeIroh.Ts.GossipHosts
import ReactNativeIroh.Ts.GossipHostsLaw
import ReactNativeIroh.Ts.GossipAnswers
import ReactNativeIroh.Core.TransferLog
import ReactNativeIroh.Core.TransferReports
import ReactNativeIroh.Ts.TransferCalls
import ReactNativeIroh.Ts.DownloadHosts
import ReactNativeIroh.Ts.DownloadParts
import ReactNativeIroh.Ts.DownloadHostsLaw
