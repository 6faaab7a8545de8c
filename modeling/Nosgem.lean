import Nosgem.UrlText
import Nosgem.Resources
import Nosgem.TrustGate
import Nosgem.TrustStore
import Nosgem.Forgery
import Nosgem.RequestSplit
import Nosgem.LinkNumbers
import Nosgem.LinkTargets
import Nosgem.History
import Nosgem.Documents
import Nosgem.Framing
import Nosgem.Truncation
import Nosgem.UrlInvariant
import Nosgem.RequestBounds
import Nosgem.Prompts
import Nosgem.Bookmarks
import Nosgem.Paging
import Nosgem.DirectoryLinks
import Nosgem.StoreRewrite
import Nosgem.StoreAppend
import Nosgem.StoreUpdate
import Nosgem.FirstUse
import Nosgem.KeyBuffer
import Nosgem.PathBuffers
import Nosgem.QueryPaths
import Nosgem.QueryLinks
import Nosgem.NumberCommand
import Nosgem.SchemeTests
import Nosgem.Queries
import Nosgem.BodyLengths
import Nosgem.RedirectFlag
import Nosgem.HeaderGrammar
import Nosgem.WordBuffers
import Nosgem.Wrapping
import Nosgem.TlsCallbacks
import Nosgem.Receiving
import Nosgem.NumberInput
import Nosgem.CommandLocals
import Nosgem.FailedCommands
import Nosgem.Assignments
import Nosgem.Config
import Nosgem.ConfigLines
import Nosgem.Generator
import Nosgem.Entropy
import Nosgem.RandomBytes
import Nosgem.Circular
import Nosgem.Simulation
import Nosgem.TcpQueues
import Nosgem.Tcp
import Nosgem.TcpInbound
import Nosgem.TcpStream
import Nosgem.TcpMemory
import Nosgem.TlsOverTcp
import Nosgem.TcpMoves
import Nosgem.TcpOutbound
import Nosgem.TcpSender
import Nosgem.Sending
import Nosgem.Histories
import Nosgem.MainLoop
import Nosgem.FileUse
import Nosgem.Consent
import Nosgem.PacketBuffers
import Nosgem.CacheTable
import Nosgem.Arp
import Nosgem.Neighbours
import Nosgem.ArpRuns
import Nosgem.DnsNames
import Nosgem.DnsRecords
import Nosgem.DnsResponses
