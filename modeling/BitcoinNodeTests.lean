import BitcoinNodeTests.Foundation.Median
import BitcoinNodeTests.MiniWallet.Generate
import BitcoinNodeTests.Node.Rpc
import BitcoinNodeTests.Peer.Connection
import BitcoinNodeTests.Peer.PacketRun
import BitcoinNodeTests.Peer.PacketStream
import BitcoinNodeTests.Peer.Pairing
import BitcoinNodeTests.Peer.Reassembly
import BitcoinNodeTests.Peer.Receive
import BitcoinNodeTests.MiniWallet.Turn
import BitcoinNodeTests.MiniWallet.BlockTime
import BitcoinNodeTests.Foundation.Coding
import BitcoinNodeTests.MiniWallet.PlainLib
import BitcoinNodeTests.MiniWallet.Accepted
import BitcoinNodeTests.MiniWallet.Calls
import BitcoinNodeTests.MiniWallet.Distinct
import BitcoinNodeTests.Node.Options
import BitcoinNodeTests.Node.Process
import BitcoinNodeTests.Node.WaitForRpc
import BitcoinNodeTests.Node.Adapter
import BitcoinNodeTests.Node.Held
import BitcoinNodeTests.Socks5.Negotiate
import BitcoinNodeTests.Socks5.Negotiated
import BitcoinNodeTests.Socks5.Proxy
import BitcoinNodeTests.Socks5.Owned
import BitcoinNodeTests.Socks5.Queued
import BitcoinNodeTests.Socks5.Closed
import BitcoinNodeTests.MiniWallet.Padding
import BitcoinNodeTests.MiniWallet.Built
import BitcoinNodeTests.MiniWallet.Refused
import BitcoinNodeTests.MiniWallet.Shares
import BitcoinNodeTests.Foundation.Cycle
import BitcoinNodeTests.Foundation.Decimal
import BitcoinNodeTests.Node.Ports
import BitcoinNodeTests.Node.Drawn
import BitcoinNodeTests.Foundation.Steps
import BitcoinNodeTests.Node.Sessions
import BitcoinNodeTests.Node.KeptSessions
import BitcoinNodeTests.MiniWallet.Confirmed
import BitcoinNodeTests.Foundation.Keyed
import BitcoinNodeTests.MiniWallet.Ledger
import BitcoinNodeTests.MiniWallet.Balance
import BitcoinNodeTests.Peer.Link
import BitcoinNodeTests.Peer.Barrier
import BitcoinNodeTests.Census.Cells
import BitcoinNodeTests.Census.Moves
import BitcoinNodeTests.Census.Moved
import BitcoinNodeTests.Census.Pins
import BitcoinNodeTests.Census.Pinned
import BitcoinNodeTests.Foundation.Resume
import BitcoinNodeTests.Peer.Handshake
import BitcoinNodeTests.Peer.Opening
import BitcoinNodeTests.Peer.Handshaken
import BitcoinNodeTests.Peer.Dialogue
import BitcoinNodeTests.Peer.Resumed
import BitcoinNodeTests.Peer.Agreement
import BitcoinNodeTests.Node.Chain
import BitcoinNodeTests.Node.Chained
import BitcoinNodeTests.MiniWallet.Coins
import BitcoinNodeTests.MiniWallet.Asked
import BitcoinNodeTests.MiniWallet.Simulation
import BitcoinNodeTests.MiniWallet.Simulated
import BitcoinNodeTests.Foundation.Preferred
import BitcoinNodeTests.MiniWallet.Preferred
import BitcoinNodeTests.MiniWallet.Resynced
import BitcoinNodeTests.Node.Decided
import BitcoinNodeTests.MiniWallet.Priced
import BitcoinNodeTests.MiniWallet.Linked
import BitcoinNodeTests.Foundation.Occurrence
import BitcoinNodeTests.Peer.Delivered
import BitcoinNodeTests.Peer.Garbage
import BitcoinNodeTests.Peer.PlainWire
import BitcoinNodeTests.Peer.Opened
import BitcoinNodeTests.Socks5.Relay
import BitcoinNodeTests.Socks5.Copied
import BitcoinNodeTests.Peer.Arrived
import BitcoinNodeTests.Peer.Split
import BitcoinNodeTests.Foundation.Follow
import BitcoinNodeTests.Foundation.Turns
import BitcoinNodeTests.Peer.Clocked
import BitcoinNodeTests.Peer.Paced
import BitcoinNodeTests.Peer.Deadline
import BitcoinNodeTests.Census.Tabled
import BitcoinNodeTests.Census.Dropped
import BitcoinNodeTests.Node.Btcd
import BitcoinNodeTests.Node.Spellings
import BitcoinNodeTests.Foundation.Traceback
import BitcoinNodeTests.Node.Teardown
import BitcoinNodeTests.Node.Reported
import BitcoinNodeTests.FeatureBlock.Blocks
import BitcoinNodeTests.FeatureBlock.Heights
import BitcoinNodeTests.Census.Grammar
import BitcoinNodeTests.Census.ReadBack
import BitcoinNodeTests.Foundation.Fences
import BitcoinNodeTests.Vendored.Entries
import BitcoinNodeTests.Vendored.Reports
import BitcoinNodeTests.Foundation.Polling
import BitcoinNodeTests.Node.Waits
import BitcoinNodeTests.Node.Network
import BitcoinNodeTests.Node.Links
import BitcoinNodeTests.Node.Connected
import BitcoinNodeTests.Node.InTime
import BitcoinNodeTests.Node.Reconnected
import BitcoinNodeTests.Node.Agreed
import BitcoinNodeTests.Census.Issues
import BitcoinNodeTests.Census.Readings
import BitcoinNodeTests.Node.Clustered
import BitcoinNodeTests.Skips.Session
import BitcoinNodeTests.Vendored.Drift
import BitcoinNodeTests.Peer.Greeting
import BitcoinNodeTests.Node.DebugLog
import BitcoinNodeTests.Census.MasterVerdict
import BitcoinNodeTests.MiniWallet.Filled
