import Nevod.Lib.Resume
import Nevod.Lib.Tasks
import Nevod.Lib.Ledger
import Nevod.Lib.Table
import Nevod.Lib.FirstWins
import Nevod.Lib.Replicas
import Nevod.Lib.Text
import Nevod.Lib.Words
import Nevod.Lib.Numeral
import Nevod.Value
import Nevod.External
import Nevod.Crypto
import Nevod.Protocol
import Nevod.Sample
import Nevod.SignData
import Nevod.Auth
import Nevod.Storage
import Nevod.Handshake
import Nevod.SigningOracle
import Nevod.Impostor
import Nevod.Agreement
import Nevod.Responses
import Nevod.Transport
import Nevod.Router
import Nevod.Routing
import Nevod.Flush
import Nevod.Gossip
import Nevod.Turn
import Nevod.Merge
import Nevod.Membership
import Nevod.Client
import Nevod.Outbound
import Nevod.Delivery
import Nevod.Lifecycle
import Nevod.Acquaintance
import Nevod.Authenticity
import Nevod.Forwarding
import Nevod.Mailbox
import Nevod.Overlap
import Nevod.Wakeup
import Nevod.Passage
import Nevod.RecvLoop
import Nevod.Lifetime
import Nevod.Spreading
import Nevod.Reconnect
import Nevod.Hops
import Nevod.Meeting
import Nevod.Presence
import Nevod.Recipients
import Nevod.Malformed
import Nevod.Overwrites
import Nevod.Certificates
import Nevod.Hearsay
import Nevod.Homebound
import Nevod.Outgoing
import Nevod.Rounds
import Nevod.Convergence
import Nevod.Console
import Nevod.Letters
import Nevod.Persistence
import Nevod.Restarts
