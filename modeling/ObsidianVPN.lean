import ObsidianVPN.Client.DnsMessage
import ObsidianVPN.Client.Hello
import ObsidianVPN.Client.Lifecycle
import ObsidianVPN.Client.Socks5
import ObsidianVPN.Client.SplitMatcher
import ObsidianVPN.Client.UdpHealth
import ObsidianVPN.Client.UriRoundTrip
import ObsidianVPN.Handshake.Complete
import ObsidianVPN.Handshake.CpsLanguage
import ObsidianVPN.Handshake.FailedMessage
import ObsidianVPN.Handshake.Freshness
import ObsidianVPN.Handshake.HelloStream
import ObsidianVPN.Handshake.Session
import ObsidianVPN.Handshake.Symbolic
import ObsidianVPN.Ipv6.Unreachable
import ObsidianVPN.Lib.ExpiryCache
import ObsidianVPN.Lib.Runs
import ObsidianVPN.Lib.Symbolic
import ObsidianVPN.Protocol.Bucket
import ObsidianVPN.Protocol.FrameMac
import ObsidianVPN.Protocol.HeaderValidate
import ObsidianVPN.Protocol.ParseInto
import ObsidianVPN.Protocol.TunnelDelivery
import ObsidianVPN.Protocol.TunnelWrite
import ObsidianVPN.Reality.Demux
import ObsidianVPN.Reality.Dial
import ObsidianVPN.Reality.HelloEncoding
import ObsidianVPN.Reality.Transparent
import ObsidianVPN.Server.Admission
import ObsidianVPN.Server.Allowlist
import ObsidianVPN.Server.DataPlane
import ObsidianVPN.Server.Fragment
import ObsidianVPN.Server.HandshakeSlots
import ObsidianVPN.Server.MssClamp
import ObsidianVPN.Server.RateLimiter
import ObsidianVPN.Server.Replay
import ObsidianVPN.Server.Revocation
import ObsidianVPN.Server.RevocationFile
import ObsidianVPN.Server.Router
import ObsidianVPN.Server.Scheduler
import ObsidianVPN.Tun.ResolvConf
import ObsidianVPN.Tun.RouteManager
import ObsidianVPN.Udp.Conversation
import ObsidianVPN.Udp.EpochRun
import ObsidianVPN.Udp.Forgery
import ObsidianVPN.Udp.Lookup
import ObsidianVPN.Udp.PacketPool
import ObsidianVPN.Udp.RatchetRun
import ObsidianVPN.Udp.ReplayRun
import ObsidianVPN.Udp.SendBuffer
