import Fleetboot.Registry.Crash
import Fleetboot.Registry.BootLog
import Fleetboot.Registry.Reserving
import Fleetboot.Registry.HardwareReports
import Fleetboot.Registry.RawCalls
import Fleetboot.Registry.RawRuns
import Fleetboot.Registry.Reopening
import Fleetboot.Registry.SessionStores
import Fleetboot.Server.PowerOff
import Fleetboot.Server.Mcp
import Fleetboot.Server.ToolEffects
import Fleetboot.Server.Leases
import Fleetboot.Server.Heartbeat
import Fleetboot.Server.PowerTargets
import Fleetboot.Server.Confinement
import Fleetboot.Server.AutoEnrol
import Fleetboot.Server.RuleRenames
import Fleetboot.Profiles.Cascade
import Fleetboot.Profiles.Saving
import Fleetboot.Profiles.SaveSteps
import Fleetboot.Profiles.Overlay
import Fleetboot.Profiles.ExtraPackages
import Fleetboot.Server.BootFiles
import Fleetboot.Server.KnownProfiles
import Fleetboot.Server.ShownState
import Fleetboot.Server.LeaseTools
import Fleetboot.Server.SoftReboot
import Fleetboot.Server.BuildJobs
import Fleetboot.Server.BuildThreads
import Fleetboot.Server.OverlayPaths
import Fleetboot.Server.OverlayStores
import Fleetboot.Server.OverlayConfinement
import Fleetboot.Server.OverlayEditing
import Fleetboot.TftpGlue.BootLine
import Fleetboot.Library.Surrogates
import Fleetboot.Library.Partition
import Fleetboot.Server.BugFormat
import Fleetboot.Server.BugFiles
import Fleetboot.Server.BugRoundTrip
import Fleetboot.Server.BugLedger
import Fleetboot.Server.InFlight
import Fleetboot.Server.Keytabs
import Fleetboot.Server.RpcReplies
import Fleetboot.Reporter.StatusUrl
import Fleetboot.Server.GrubIntercepts
import Fleetboot.Server.LogTails
import Fleetboot.Server.UsableProfiles
import Fleetboot.Server.PowerAlias
import Fleetboot.Library.Grants
import Fleetboot.TftpGlue.GrubScript
import Fleetboot.TftpGlue.Client
import Fleetboot.TftpGlue.BootRuns
import Fleetboot.Profiles.Resolve
import Fleetboot.Server.ImageBuilds
import Fleetboot.Library.Interleaving
import Fleetboot.Library.Least
import Fleetboot.Server.PowerPool
import Fleetboot.Server.FleetReboot
import Fleetboot.Registry.Upgrades
import Fleetboot.Server.MachineTools
import Fleetboot.Server.PermanentHolds
import Fleetboot.Server.FleetPower
import Fleetboot.Server.RawLeaseTools
