import VoidGate.RingLists
import VoidGate.CellChains
import VoidGate.BitPrefixes
import VoidGate.GroupInserts
import VoidGate.Patterns
import VoidGate.Runs
import VoidGate.BoundedWalks
import VoidGate.Decimals
import VoidGate.DelimitedFields
import VoidGate.LockFiles
import VoidGate.ExpiringMarks
import VoidGate.PerCpuCounters
import VoidGate.IpAddr
import VoidGate.Config
import VoidGate.Maps
import VoidGate.MapCalls
import VoidGate.DropList
import VoidGate.DropListOperations
import VoidGate.SnapTable
import VoidGate.Policy
import VoidGate.Actions
import VoidGate.CallTraces
import VoidGate.DropCalls
import VoidGate.ListCalls
import VoidGate.CtlServer
import VoidGate.StartSizes
import VoidGate.DropListRuns
import VoidGate.KernelAgreement
import VoidGate.DropCapacity
import VoidGate.Deadlines
import VoidGate.FailedDrops
import VoidGate.Xdp
import VoidGate.XdpParse
import VoidGate.XdpVerdict
import VoidGate.FrameAccounts
import VoidGate.Encapsulation
import VoidGate.ExtensionChain
import VoidGate.Sweeps
import VoidGate.ReloadPrune
import VoidGate.Expiry
import VoidGate.NeverBlackhole
import VoidGate.ReloadFailure
import VoidGate.ConfigSpec
import VoidGate.ReloadConfig
import VoidGate.KernelPorts
import VoidGate.MapHistories
import VoidGate.ReloadPhases
import VoidGate.ReloadExemptions
import VoidGate.MapKeys
import VoidGate.MapRebuild
import VoidGate.ReloadProtection
import VoidGate.SnapshotFrames
import VoidGate.RemoteWalk
import VoidGate.RemoteRates
import VoidGate.DropEntries
import VoidGate.QuietTime
import VoidGate.RateSamples
import VoidGate.FreshBaselines
import VoidGate.SnapshotRuns
import VoidGate.WalkOutcome
import VoidGate.Gateway
import VoidGate.GatewayCounters
import VoidGate.TrueTraffic
import VoidGate.WakeUp
import VoidGate.FloodResponse
import VoidGate.BanLifetime
import VoidGate.DropCauses
import VoidGate.StandDown
import VoidGate.ExitStatus
import VoidGate.LuaResults
import VoidGate.Launch
import VoidGate.BanEnds
import VoidGate.SteadyVerdicts
import VoidGate.RacingReads
import VoidGate.CutFrames
import VoidGate.UndropListed
import VoidGate.CtlProtocol
import VoidGate.DropOrder
import VoidGate.CtlFraming
import VoidGate.CidrText
import VoidGate.DropCommand
import VoidGate.NetworkLists
import VoidGate.ConfigNumbers
import VoidGate.LocalNetworks
import VoidGate.CtlClient
import VoidGate.LuaClient
import VoidGate.BanQueue
import VoidGate.LuaReplies
import VoidGate.DropsListing
import VoidGate.StatusReplies
import VoidGate.HttpMetrics
import VoidGate.MainLoop
import VoidGate.DaemonProcesses
import VoidGate.OneDaemon
import VoidGate.InterfaceOwner
import VoidGate.StopSignal
