import RootShell.ActiveForwards
import RootShell.AddressPrefixes
import RootShell.AlgorithmLists
import RootShell.BinaryDownloads
import RootShell.BodyFiles
import RootShell.BodyFraming
import RootShell.BufferedForward
import RootShell.BufferedReader
import RootShell.ByteLines
import RootShell.ByteText
import RootShell.CapturePatterns
import RootShell.CaptureStates
import RootShell.CertMinting
import RootShell.ChunkedCopies
import RootShell.ChunkedGrammar
import RootShell.ConnectionLoop
import RootShell.CookieSubstitution
import RootShell.CursorQueries
import RootShell.DiscardMarkers
import RootShell.DnsNameCache
import RootShell.DnsServers
import RootShell.DnsTransports
import RootShell.DuplexRelays
import RootShell.EgressAttach
import RootShell.ExecChannels
import RootShell.ExpectHandover
import RootShell.ExpectMatching
import RootShell.FakeAddresses
import RootShell.FakeContainment
import RootShell.FallibleState
import RootShell.FileTables
import RootShell.FilledReads
import RootShell.FlowBridges
import RootShell.FlowResets
import RootShell.ForwardAgreement
import RootShell.ForwardSafety
import RootShell.ForwardSpecs
import RootShell.FramingInStep
import RootShell.FuelledLoops
import RootShell.GlobMatching
import RootShell.GlobPatterns
import RootShell.HeadReading
import RootShell.HeadRoundTrips
import RootShell.HeaderEditors
import RootShell.HeaderLists
import RootShell.HostRules
import RootShell.InertRules
import RootShell.InterceptedInput
import RootShell.Interleaving
import RootShell.JumpChains
import RootShell.JumpClosers
import RootShell.JumpCycles
import RootShell.KeyedTables
import RootShell.LoopProgress
import RootShell.MarkerRemoval
import RootShell.MessageRewrites
import RootShell.MitmDecisions
import RootShell.MitmFlows
import RootShell.NetworkSettings
import RootShell.NewlineForwarding
import RootShell.OnesComplement
import RootShell.PeekReplay
import RootShell.PiecewiseFeeds
import RootShell.PortForwards
import RootShell.PortRanges
import RootShell.QuotedText
import RootShell.RecencyCaches
import RootShell.RecorderQueue
import RootShell.RecorderSystem
import RootShell.RegexpTexts
import RootShell.RingTables
import RootShell.RoutingRules
import RootShell.RuleLists
import RootShell.RuneText
import RootShell.SegmentedStreams
import RootShell.SendTexts
import RootShell.SliceViews
import RootShell.Socks5Handshakes
import RootShell.SpillHistories
import RootShell.SshTimes
import RootShell.StagedReaders
import RootShell.StreamLocalForwards
import RootShell.StreamRewrites
import RootShell.TcpFlows
import RootShell.TerminalEvents
import RootShell.ThreadPools
import RootShell.TokenExpansion
import RootShell.TransactionEnds
import RootShell.TunnelPath
import RootShell.TunnelStart
import RootShell.UdpFlows
import RootShell.UdpPackets
import RootShell.UdpSessions
import RootShell.UrlHosts
import RootShell.WebSocketTap
import RootShell.WireExchanges
import RootShell.WordFields
