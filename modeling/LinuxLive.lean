import LinuxLive.Lib.Bytes
import LinuxLive.Lib.Hex
import LinuxLive.Lib.Numbers
import LinuxLive.Lib.OpenSSL
import LinuxLive.Lib.Rounding
import LinuxLive.Lib.Json
import LinuxLive.Lib.JsonInteger
import LinuxLive.Lib.JsonText
import LinuxLive.Lib.JsonTypes
import LinuxLive.Lib.JsonLex
import LinuxLive.Lib.JsonCodec
import LinuxLive.Lib.RecordFile
import LinuxLive.Lib.RecordLoop
import LinuxLive.Lib.RecordFormat
import LinuxLive.Lib.Runs
import LinuxLive.Lib.Machines
import LinuxLive.Lib.Paths
import LinuxLive.Lib.Journal
import LinuxLive.Lib.Sockets
import LinuxLive.Lib.Turns
import LinuxLive.Lib.WebSocket
import LinuxLive.Lib.Pieces
import LinuxLive.Lib.FrameStream
import LinuxLive.Lib.Interleave
import LinuxLive.Lib.Pool
import LinuxLive.Lib.Writers
import LinuxLive.Lib.SlidingWindow
import LinuxLive.Lib.Search
import LinuxLive.Lib.Transfers
import LinuxLive.Lib.Lines
import LinuxLive.Lib.Base64
import LinuxLive.Lib.Positions
import LinuxLive.Lib.Marks
import LinuxLive.Protocol.Wire
import LinuxLive.Protocol.Event
import LinuxLive.Protocol.Decoding
import LinuxLive.Protocol.ReadLoop
import LinuxLive.Protocol.CutStreams
import LinuxLive.Protocol.PartialFrames
import LinuxLive.Protocol.Signing
import LinuxLive.Protocol.Ids
import LinuxLive.Protocol.KeyText
import LinuxLive.Protocol.Achievements
import LinuxLive.Sdk.Events
import LinuxLive.Sdk.Achievements
import LinuxLive.Relay.Server
import LinuxLive.Relay.RateLimit
import LinuxLive.Relay.Pruning
import LinuxLive.Relay.Options
import LinuxLive.Relay.Session
import LinuxLive.Relay.Senders
import LinuxLive.Relay.FrameLengths
import LinuxLive.Relay.Handshake
import LinuxLive.Relay.Handler
import LinuxLive.Relay.Filter
import LinuxLive.Relay.Broadcast
import LinuxLive.Relay.Exceptions
import LinuxLive.Relay.Runs
import LinuxLive.Relay.Acknowledge
import LinuxLive.Relay.KindGate
import LinuxLive.Relay.Window
import LinuxLive.Relay.Workers
import LinuxLive.Relay.Threads
import LinuxLive.Relay.Overshoot
import LinuxLive.Relay.Admission.Blocked
import LinuxLive.Relay.Admission.BothFit
import LinuxLive.Relay.Admission.Race
import LinuxLive.Core.Identity
import LinuxLive.Core.IdentityFile
import LinuxLive.Core.RelayClient
import LinuxLive.Core.WsClient
import LinuxLive.Core.RelayUrl
import LinuxLive.Core.Connect
import LinuxLive.Core.DeadConnection
import LinuxLive.Core.Opening
import LinuxLive.Core.Persistence
import LinuxLive.Core.ExportFile
import LinuxLive.Core.ImportEvents
import LinuxLive.Core.NodesFile
import LinuxLive.Core.MessagesFile
import LinuxLive.Core.FriendsFile
import LinuxLive.Core.ProfileFile
import LinuxLive.Core.DataDirectory
import LinuxLive.Core.PassiveScanner
import LinuxLive.Core.Yaml
import LinuxLive.Core.DefinitionFile
import LinuxLive.System.Publishing
import LinuxLive.System.Bans
import LinuxLive.System.RoundTrip
import LinuxLive.System.Frames
import LinuxLive.System.LiveDelivery
import LinuxLive.System.Opening
import LinuxLive.Gui.App
import LinuxLive.Gui.Account
import LinuxLive.Gui.Connection
import LinuxLive.Gui.Import
import LinuxLive.Gui.Nodes
import LinuxLive.Gui.Chat
import LinuxLive.System.Sending
import LinuxLive.System.Subscriptions
import LinuxLive.System.ChannelHistory
import LinuxLive.System.WireFormat
import LinuxLive.System.Fidelity
import LinuxLive.System.Durability
import LinuxLive.System.Import
import LinuxLive.System.AchievementFormats
import LinuxLive.System.DirectMessages
import LinuxLive.System.NodesOnDisk
import LinuxLive.System.ChatJournal
import LinuxLive.System.ChatIsolation
import LinuxLive.System.ChatDurability
import LinuxLive.System.ScannerRuns
import LinuxLive.System.BadRecords
import LinuxLive.System.PartialMessages
import LinuxLive.System.OpenChat
import LinuxLive.System.Transfers
import LinuxLive.System.FailedSaves
import LinuxLive.System.ChatText
