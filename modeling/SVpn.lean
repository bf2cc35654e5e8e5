import SVpn.KeyTable
import SVpn.FirstByte
import SVpn.ClientLoop
import SVpn.Trace
import SVpn.Authentication
import SVpn.ClientSteps
import SVpn.ServerCauses
import SVpn.System
import SVpn.Uplink
import SVpn.Downlink
import SVpn.UserSessions
import SVpn.ConfigAgreement
import SVpn.Registration
import SVpn.Md5Digest
import SVpn.TunnelReads
import SVpn.StatusLine
import SVpn.Speeds
import SVpn.TrafficAccounting
import SVpn.SetUp
import SVpn.StartUp
import SVpn.ReaderBounds
import SVpn.UserLines
import SVpn.NumberText
import SVpn.KeyMixing
import SVpn.Md5Blocks
import SVpn.Leftovers
import SVpn.Relay
import SVpn.ServerStreams
import SVpn.ClientRelay
import SVpn.Tunnel
import SVpn.Replay
import SVpn.Isolation
import SVpn.ReportPace
import SVpn.AddressText
import SVpn.Programs
import SVpn.Survival
import SVpn.Messages
import SVpn.Codebook
import SVpn.Launch
import SVpn.SharedPassword
import SVpn.LogText
import SVpn.UserNotices
import SVpn.ServerOutput
