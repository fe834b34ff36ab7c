import LinuxNet.Lib.Run
import LinuxNet.Lib.Replace
import LinuxNet.Lib.Transfer
import LinuxNet.Httpd.Percent
import LinuxNet.Httpd.Send
import LinuxNet.Lib.Path
import LinuxNet.Httpd.Depth
import LinuxNet.Httpd.Request
import LinuxNet.Httpd.Header
import LinuxNet.Httpd.RoundTrip
import LinuxNet.Httpd.Mime
import LinuxNet.Lib.Words
import LinuxNet.Httpd.Config
import LinuxNet.Httpd.Output
import LinuxNet.Httpd.Handlers
import LinuxNet.Httpd.Post
import LinuxNet.Httpd.Cgi
import LinuxNet.Httpd.Children
import LinuxNet.Lib.Tests
import LinuxNet.Lib.OnesComplement
import LinuxNet.Sipfw.Fidelity
import LinuxNet.Sipfw.Counts
import LinuxNet.Sipfw.Bounds
import LinuxNet.Sipfw.Validation
import LinuxNet.Sipfw.Replies
import LinuxNet.Sipfw.Cells
import LinuxNet.Sipfw.FirstMatch
import LinuxNet.Sipfw.Reads
import LinuxNet.Sipfw.Proc
import LinuxNet.Sipfw.Conf
import LinuxNet.Sipfw.Positions
import LinuxNet.Sipfw.Listing
import LinuxNet.Sipfw.System
import LinuxNet.Sipfw.Names
import LinuxNet.Sipfw.Lines
import LinuxNet.Sipfw.Localtime
import LinuxNet.Sip.Workload
import LinuxNet.Sip.Fragmentation
import LinuxNet.Sip.Search
import LinuxNet.Sip.Insertion
import LinuxNet.Sip.HeaderChecksum
import LinuxNet.Sip.Answers
import LinuxNet.Sip.FrameBounds
import LinuxNet.Sip.UdpOwners
import LinuxNet.Sip.UdpQueue
import LinuxNet.Sip.UdpRemove
import LinuxNet.Sip.AutoPort
import LinuxNet.Sip.Demux
import LinuxNet.Sip.ArpMap
import LinuxNet.Sip.ArpAnswers
import LinuxNet.Sip.Ownership
import LinuxNet.Sip.Heard
import LinuxNet.Sip.Cache
import LinuxNet.Sip.Socket
import LinuxNet.Sip.StreamReads
import LinuxNet.Ping.Accounting
import LinuxNet.Ping.Checksum
import LinuxNet.Netfilter.Ban
import LinuxNet.Unix.SharedFile
import LinuxNet.Servers.SelectLoop
import LinuxNet.Servers.TimeServer
import LinuxNet.Servers.EpollEcho
