import SeamProtocol.Network.Credit
import SeamProtocol.Tunnel.Contract
import SeamProtocol.Network.Nonces
import SeamProtocol.Transport.Control
import SeamProtocol.Transport.Idle
import SeamProtocol.Transport.Agreement
import SeamProtocol.Server.Cookies
import SeamProtocol.Client.Completion
import SeamProtocol.Session.RatchetSession
import SeamProtocol.Session.Overlap
import SeamProtocol.Network.LostUpdate
import SeamProtocol.Transport.Accounting
import SeamProtocol.Fec.Safety
import SeamProtocol.Files.Integrity
import SeamProtocol.Files.Convergence
import SeamProtocol.Files.Names
import SeamProtocol.Files.Share
import SeamProtocol.Audit
import SeamProtocol.Pins.Commands
import SeamProtocol.Shell.Transparency
import SeamProtocol.Relay.Carried
import SeamProtocol.Network.StreamTable
import SeamProtocol.Session.Limits
import SeamProtocol.Fec.Partial
import SeamProtocol.Transport.Resumption
import SeamProtocol.Files.Settings
import SeamProtocol.Session.AckFrame
import SeamProtocol.Session.Datagrams
import SeamProtocol.Session.Estimates
import SeamProtocol.Transport.Cc
import SeamProtocol.Session.Scheduling
import SeamProtocol.Handshake.Cookies
import SeamProtocol.Transport.Congestion
import SeamProtocol.Transport.Migration
import SeamProtocol.Transport.Multipath
import SeamProtocol.Files.Framing
import SeamProtocol.Transport.Stun
import SeamProtocol.Calendar
import SeamProtocol.Files.Failure
import SeamProtocol.Files.Mount
import SeamProtocol.Files.RateLimit
import SeamProtocol.Files.Watch
import SeamProtocol.Handshake.Identity
import SeamProtocol.Pins.Processes
import SeamProtocol.Relay.UdpProxy
import SeamProtocol.Tunnel.Counter
import SeamProtocol.Fec.Distance
