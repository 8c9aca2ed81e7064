import Udpfsd.Base.Transition
import Udpfsd.Base.Buffer
import Udpfsd.Base.CircularBuffer
import Udpfsd.Base.Consecutive
import Udpfsd.Udprdma.Protocol
import Udpfsd.Udprdma.Session
import Udpfsd.Udprdma.Transmit
import Udpfsd.Udprdma.Receive
import Udpfsd.Udprdma.Effects
import Udpfsd.Udprdma.Runs
import Udpfsd.Base.Journal
import Udpfsd.Udprdma.Ring
import Udpfsd.Udprdma.Progress
import Udpfsd.Udprdma.Nack
import Udpfsd.Base.LossyFifo
import Udpfsd.Udprdma.StopAndWait
import Udpfsd.Udprdma.Delivery
import Udpfsd.Base.FilePath
import Udpfsd.Udpfs.Protocol
import Udpfsd.Udpfs.Connection
import Udpfsd.Udpfs.Handlers
import Udpfsd.Fs.Compression
import Udpfsd.Fs.Handles
import Udpfsd.Fs.Fileops
import Udpfsd.Fs.Table
import Udpfsd.Fs.Host
import Udpfsd.Fs.Exclusive
import Udpfsd.Fs.Requests
import Udpfsd.Server.Peers
import Udpfsd.Server.Ownership
import Udpfsd.Server.BlockWrites
import Udpfsd.Udprdma.Content
import Udpfsd.Server.Replies
import Udpfsd.Udprdma.FinGuard
import Udpfsd.Udprdma.GiveUp
import Udpfsd.Udprdma.StaleTimer
import Udpfsd.Udprdma.Window
import Udpfsd.Udprdma.Receipts
import Udpfsd.Udprdma.Alike
import Udpfsd.Udprdma.Restart
import Udpfsd.Fs.Confinement
import Udpfsd.Fs.Volume
import Udpfsd.Server.ReadOnly
import Udpfsd.Base.Subsequence
import Udpfsd.Server.Reassembly
import Udpfsd.Base.Blocks
import Udpfsd.Fs.FlatFile
import Udpfsd.Base.Program
import Udpfsd.Base.Recency
import Udpfsd.Fs.FileProgram
import Udpfsd.Fs.Container
import Udpfsd.Fs.Cso
import Udpfsd.Fs.Zso
import Udpfsd.Fs.HandleSafety
import Udpfsd.Fs.Containers
import Udpfsd.Fs.Listing
import Udpfsd.Fs.Reopen
import Udpfsd.Fs.Reading
import Udpfsd.Fs.Sectors
import Udpfsd.Fs.FailedRead
import Udpfsd.Fs.Filesystem
import Udpfsd.Fs.FailedOpen
import Udpfsd.Fs.Agreement
import Udpfsd.Fs.Lru
import Udpfsd.Fs.Eviction
import Udpfsd.Server.Seeking
import Udpfsd.Udprdma.RoundTrip
import Udpfsd.Wireshark.Dissector
import Udpfsd.Wireshark.ReadReplies
import Udpfsd.Fs.Headers
import Udpfsd.Fs.BlockReads
import Udpfsd.Fs.Chd
import Udpfsd.Udprdma.Completion
import Udpfsd.Server.Transfers
import Udpfsd.Server.Calls
import Udpfsd.Server.RemoteCalls
import Udpfsd.Server.Leaks
import Udpfsd.Udpfs.Keeps
import Udpfsd.Server.Daemon
import Udpfsd.Server.Prompt
import Udpfsd.Server.Amplification
import Udpfsd.Fs.Lifecycle
import Udpfsd.Server.Objects
import Udpfsd.Udprdma.Repair
import Udpfsd.Udpfs.Lockstep
import Udpfsd.Base.Lockstep
import Udpfsd.Fs.Enclosure
import Udpfsd.Fs.Mirrored
import Udpfsd.Fs.Decoders
import Udpfsd.Server.Outside
import Udpfsd.Base.Total
import Udpfsd.Fs.Steady
import Udpfsd.Udprdma.NoPanic
import Udpfsd.Server.Panics
