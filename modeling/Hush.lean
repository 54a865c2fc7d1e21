import Hush.Foundation.BigEndian
import Hush.Foundation.Cursor
import Hush.Foundation.Leb128
import Hush.Foundation.Upsert
import Hush.Foundation.Utf8
import Hush.Tlv.Value
import Hush.Tlv.Varint
import Hush.Tlv.VarintExact
import Hush.Tlv.Encode
import Hush.Tlv.Decode
import Hush.Tlv.Grammar
import Hush.Tlv.RoundTrip
import Hush.Foundation.PrefixCode
import Hush.Foundation.OrderedMap
import Hush.Tlv.WireOrder
import Hush.Tlv.Injective
import Hush.Foundation.Stream
import Hush.Session.Crypto
import Hush.Frame.Codec
import Hush.Frame.LengthPrefix
import Hush.Frame.Framing
import Hush.Frame.Message
import Hush.Frame.Delivery
import Hush.Foundation.Execution
import Hush.Session.Store
import Hush.Server.Handshake
import Hush.Server.SessionKeys
import Hush.Server.Dispatch
import Hush.Server.Tcp
import Hush.Server.Quic
import Hush.Server.Expiry
import Hush.Server.TcpSession
import Hush.Server.TcpExpiry
import Hush.Server.QuicSession
import Hush.Server.Reads
import Hush.Server.Replay
import Hush.Server.IdleTimeout
import Hush.Server.Cleanup
import Hush.Frame.PlaintextGrammar
import Hush.Frame.Authenticity
import Hush.Server.ExpiryGate
import Hush.Server.Derivation
import Hush.Server.Listen
import Hush.Server.Isolation
import Hush.Server.Answers
import Hush.Server.Rounds
import Hush.Client.Dial
import Hush.Foundation.Link
import Hush.Client.Endpoint
import Hush.Server.Greeter
import Hush.Server.Greeters
import Hush.Client.Handshake
import Hush.Client.Agreement
import Hush.Client.Identity
import Hush.Session.Negotiate
import Hush.Server.SyncHandshake
import Hush.Server.Conversation
import Hush.Client.Calls
import Hush.Client.Correlation
import Hush.Client.Turns
import Hush.Client.Steps
import Hush.Client.Progress
import Hush.Client.ReadHalf
import Hush.Client.Correlated
import Hush.Client.Dropped
import Hush.Media.TokenStore
import Hush.Media.TokenLifetime
import Hush.Foundation.Broadcast
import Hush.Hub.Hub
import Hush.Hub.Topics
import Hush.Hub.Delivery
import Hush.Foundation.Checked
import Hush.Tlv.DecodeChecked
import Hush.Frame.Checked
import Hush.Server.Service
import Hush.Server.TcpService
import Hush.Server.StreamService
import Hush.Server.Simulation
import Hush.Foundation.History
import Hush.Session.StoreHistory
import Hush.Media.AccessPaths
import Hush.Server.Registration
import Hush.Server.Middleware
import Hush.Hub.Listing
import Hush.Server.SharedSteps
import Hush.Server.Builder
import Hush.Server.MediaServer
import Hush.Server.MediaExpiry
import Hush.Foundation.Ticker
import Hush.Server.GcLoop
import Hush.Server.Occupancy
import Hush.Server.Recovery
import Hush.Server.Guarded
import Hush.Server.Termination
import Hush.Server.FrameStream
import Hush.Hub.Order
import Hush.Tlv.Access
import Hush.Chat.Subscriber
import Hush.Chat.Feed
import Hush.Server.Turns
import Hush.Server.Sequential
import Hush.Foundation.Hex
import Hush.Client.Negotiate
import Hush.Client.QuinnCalls
import Hush.Server.StreamTalk
import Hush.Client.Multiplexed
import Hush.Client.Linearizable
import Hush.Server.MediaConnected
import Hush.Client.AtMostOnce
