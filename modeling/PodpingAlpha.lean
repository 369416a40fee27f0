import PodpingAlpha.Library.Transition
import PodpingAlpha.Library.Deque
import PodpingAlpha.Library.Bytes
import PodpingAlpha.Library.Hex
import PodpingAlpha.Library.Outcome
import PodpingAlpha.Library.Stateful
import PodpingAlpha.Library.Text
import PodpingAlpha.Library.Table
import PodpingAlpha.Library.Like
import PodpingAlpha.Library.Json
import PodpingAlpha.Library.JsonReader
import PodpingAlpha.Library.Deserialize
import PodpingAlpha.Library.JsonSize
import PodpingAlpha.Library.Greedy
import PodpingAlpha.Library.Closure
import PodpingAlpha.Library.Schnorr
import PodpingAlpha.Dtt.GossipReceiver
import PodpingAlpha.Dtt.Record
import PodpingAlpha.FrontEnd.Queue
import PodpingAlpha.FrontEnd.Handler
import PodpingAlpha.FrontEnd.QueueChecker
import PodpingAlpha.FrontEnd.SentFirst
import PodpingAlpha.FrontEnd.UpdateKept
import PodpingAlpha.FrontEnd.HiveFirst
import PodpingAlpha.Writer.Notification
import PodpingAlpha.Writer.FlushBatch
import PodpingAlpha.Writer.Batches
import PodpingAlpha.Writer.PayloadSize
import PodpingAlpha.Writer.Broadcast
import PodpingAlpha.Writer.Shutdown
import PodpingAlpha.Wire.Canonical
import PodpingAlpha.Listener.Archive
import PodpingAlpha.Listener.Messages
import PodpingAlpha.Listener.HandleEvent
import PodpingAlpha.Listener.Codec
import PodpingAlpha.Writer.Messages
import PodpingAlpha.Monitor.Suggest
import PodpingAlpha.Listener.Effects
import PodpingAlpha.Listener.Panics
import PodpingAlpha.Listener.Authentic
import PodpingAlpha.Listener.Trust
import PodpingAlpha.Wire.Agreement
import PodpingAlpha.Wire.Binding
import PodpingAlpha.Listener.CatchUp
import PodpingAlpha.Listener.Reconnect
import PodpingAlpha.Listener.Neighbors
import PodpingAlpha.Dtt.Publish
import PodpingAlpha.Dtt.MessageHashes
import PodpingAlpha.Dtt.Dht
import PodpingAlpha.Listener.Store
import PodpingAlpha.FrontEnd.PingPanics
import PodpingAlpha.FrontEnd.Resend
import PodpingAlpha.Writer.Receive
import PodpingAlpha.Library.Components
import PodpingAlpha.Monitor.Betweenness
import PodpingAlpha.Monitor.Topology
import PodpingAlpha.Monitor.Healing
import PodpingAlpha.Library.Frames
import PodpingAlpha.Listener.Framing
import PodpingAlpha.Library.Lines
import PodpingAlpha.Listener.TrustFile
import PodpingAlpha.Monitor.PoorlyConnected
import PodpingAlpha.Monitor.Swarm
import PodpingAlpha.Monitor.KnownPeers
import PodpingAlpha.Listener.SeqGaps
import PodpingAlpha.Dtt.Discovery
import PodpingAlpha.Listener.Routes
import PodpingAlpha.Library.Geodesics
import PodpingAlpha.Library.KeyMap
import PodpingAlpha.Monitor.PathTables
import PodpingAlpha.Monitor.Centrality
import PodpingAlpha.Library.Fanout
import PodpingAlpha.Listener.Sse
import PodpingAlpha.Monitor.TopologyTask
import PodpingAlpha.FrontEnd.Requested
import PodpingAlpha.Writer.Places
import PodpingAlpha.System.Submitted
import PodpingAlpha.Dtt.Bootstrap
import PodpingAlpha.Wire.Signing
import PodpingAlpha.System.Suggested
import PodpingAlpha.System.Delivered
import PodpingAlpha.Library.Delegation
import PodpingAlpha.System.Endorsed
import PodpingAlpha.System.Healed
