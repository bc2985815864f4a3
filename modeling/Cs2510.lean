import Cs2510.Lib.TransitionSystem
import Cs2510.Lib.Run
import Cs2510.Lib.Bytes
import Cs2510.Lib.Socket
import Cs2510.Lib.Exchange
import Cs2510.Lib.Transfer
import Cs2510.Lib.Shutdown
import Cs2510.Lib.Dict
import Cs2510.Lib.LinkedNodes
import Cs2510.Lib.CString
import Cs2510.Chat.Message
import Cs2510.Chat.MessageNet
import Cs2510.Chat.Client
import Cs2510.Chat.Listener
import Cs2510.Chat.Lengths
import Cs2510.Chat.Hangup
import Cs2510.Chat.Alignment
import Cs2510.Chat.Server
import Cs2510.Chat.ServerInvariant
import Cs2510.Chat.ServerStep
import Cs2510.Chat.ListenerStep
import Cs2510.Chat.TotalOrder
import Cs2510.Chat.Descriptors
import Cs2510.Chat.Streams
import Cs2510.Chat.Authorship
import Cs2510.Chat.Presence
import Cs2510.Chat.NoDuplicate
import Cs2510.Chat.NoLostMessage
import Cs2510.Chat.CatchUp
import Cs2510.Chat.Reconnect
import Cs2510.Chat.Receiver
import Cs2510.Chat.Greeting
import Cs2510.Chat.Returns
import Cs2510.Chat.Sender
import Cs2510.Chat.Host
import Cs2510.Chat.Conversation
import Cs2510.Chat.Typed
import Cs2510.Chat.ReceiveError
import Cs2510.Chat.ReadMark
import Cs2510.Chat.MarkAccess
import Cs2510.Chat.LinkedList
import Cs2510.Chat.JobQueue
import Cs2510.Chat.JobQueueThreads
import Cs2510.Chat.Teardown
import Cs2510.Chat.Lists
import Cs2510.Chat.ClientIds
import Cs2510.Lib.Options
import Cs2510.Chat.Startup
import Cs2510.Chat.SentText
import Cs2510.Store.Server
import Cs2510.Store.Snapshot
import Cs2510.Store.System
import Cs2510.Store.Broadcast
import Cs2510.Store.SystemStep
import Cs2510.Store.Service
import Cs2510.Store.LeaderOrders
import Cs2510.Store.Origin
import Cs2510.Store.SyncWindow
import Cs2510.Store.Version
import Cs2510.Store.Convergence
import Cs2510.Store.LastWrite
import Cs2510.Store.Failover
import Cs2510.Store.Election
import Cs2510.Store.Membership
import Cs2510.Store.ElectionStep
import Cs2510.Store.AtMostOneLeader
import Cs2510.Store.LeaderKnows
import Cs2510.Store.Forwarding
import Cs2510.Store.SyncRetry
import Cs2510.Store.Serial
import Cs2510.Store.FailedCheck
import Cs2510.Store.Settling
import Cs2510.Lib.Register
import Cs2510.Store.Register
