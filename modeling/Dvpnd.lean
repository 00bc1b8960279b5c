import Dvpnd.Lib.Prog
import Dvpnd.Lib.Threads
import Dvpnd.Lib.Evidence
import Dvpnd.Lib.Lists
import Dvpnd.Lib.Steps
import Dvpnd.Lib.Base64
import Dvpnd.Lib.Hex
import Dvpnd.Lib.JSON
import Dvpnd.Lib.TOML
import Dvpnd.Lib.Crash
import Dvpnd.Lib.Masks
import Dvpnd.Lib.FirstMatch
import Dvpnd.Lib.Draws
import Dvpnd.Lib.Parsing
import Dvpnd.Lib.Protobuf
import Dvpnd.Lib.Tokens
import Dvpnd.Lib.Restart
import Dvpnd.Lib.X509
import Dvpnd.Lib.Ledger
import Dvpnd.Lib.Ticker
import Dvpnd.Types.Session
import Dvpnd.Types.Chain
import Dvpnd.Types.Service
import Dvpnd.Context
import Dvpnd.Session.Admit
import Dvpnd.Node.SetSessions
import Dvpnd.Node.Report
import Dvpnd.Node.UpdateSessions
import Dvpnd.Node.Reconcile
import Dvpnd.Node.Interleaving
import Dvpnd.Session.Handshake
import Dvpnd.Session.Locked
import Dvpnd.Session.Eviction
import Dvpnd.Session.Caps
import Dvpnd.Node.Overflow
import Dvpnd.Services.Proxies
import Dvpnd.Services.IPPool
import Dvpnd.Services.ParseCIDR
import Dvpnd.Session.Guard
import Dvpnd.Session.Reply
import Dvpnd.Services.WireGuard
import Dvpnd.Services.Addresses
import Dvpnd.Services.Tiers
import Dvpnd.Services.AmneziaConfig
import Dvpnd.Services.Payload
import Dvpnd.Services.Subnets
import Dvpnd.Services.Generate
import Dvpnd.Services.Pools
import Dvpnd.Services.Hosts
import Dvpnd.Services.Egress
import Dvpnd.Services.Chains
import Dvpnd.Services.Traversal
import Dvpnd.Services.Fence
import Dvpnd.Services.Tunnel
import Dvpnd.Services.Daemon
import Dvpnd.Services.ConfigFile
import Dvpnd.Services.NAT
import Dvpnd.Services.Forwarding
import Dvpnd.Services.Clients
import Dvpnd.Services.UUID
import Dvpnd.Services.Auth
import Dvpnd.Services.Profiles
import Dvpnd.Services.Replies
import Dvpnd.Services.Management
import Dvpnd.Services.StaticKey
import Dvpnd.Services.PKI
import Dvpnd.Services.Deltas
import Dvpnd.Services.Stats
import Dvpnd.Services.Metering
import Dvpnd.Services.Events
import Dvpnd.Services.Totals
import Dvpnd.Services.XrayWire
import Dvpnd.Services.XrayStats
import Dvpnd.Node.Invariant
import Dvpnd.Node.Staleness
import Dvpnd.Node.Totals
import Dvpnd.Node.Books
import Dvpnd.Node.Rising
import Dvpnd.Node.Sweep
import Dvpnd.Node.Removal
import Dvpnd.Node.Status
import Dvpnd.Session.Authority
import Dvpnd.Session.Replay
import Dvpnd.Utils.File
import Dvpnd.Libs.Bandwidth
import Dvpnd.Lite.Tx
import Dvpnd.Lite.Delivery
import Dvpnd.Lite.Grants
import Dvpnd.Lite.HotKey
