import SysDeck.Library.OrderedMap
import SysDeck.Library.Execution
import SysDeck.Library.DependencyOrder
import SysDeck.Library.Text
import SysDeck.Library.Binary64
import SysDeck.Library.Numeral
import SysDeck.Fester.Events
import SysDeck.Fester.Targets
import SysDeck.Fester.Nodes
import SysDeck.Fester.Store
import SysDeck.Fester.Build
import SysDeck.Fester.Engine
import SysDeck.Fester.Lifecycle
import SysDeck.Fester.RunInvariant
import SysDeck.Fester.Refinement
import SysDeck.Fester.Runs
import SysDeck.Fester.Dependency
import SysDeck.Fester.EventProtocol
import SysDeck.Fester.JobSlots
import SysDeck.Fester.Cache
import SysDeck.Fester.BuildIdentity
import SysDeck.Fester.Debugger
import SysDeck.Fester.Cancel
import SysDeck.Fester.Outcome
import SysDeck.Fester.Autopsy
import SysDeck.Fester.AutopsyAgreement
import SysDeck.Fester.EventsTable
import SysDeck.Fester.Journal
import SysDeck.Web.Cached
import SysDeck.Library.Base64
import SysDeck.Web.Session
import SysDeck.Web.SessionTokens
import SysDeck.Fester.SessionGate
import SysDeck.Fester.SessionAgreement
import SysDeck.Web.SessionSecret
import SysDeck.Web.Bridge
import SysDeck.Web.Firewall
import SysDeck.Library.Json
import SysDeck.Web.FirewallDryRun
import SysDeck.Web.BridgeRoute
import SysDeck.Web.BridgeAllowlist
import SysDeck.Web.Accounts
import SysDeck.Web.MutationGate
import SysDeck.Web.MutationRights
import SysDeck.Web.Lockout
import SysDeck.Web.LoginLockout
import SysDeck.Library.CString
import SysDeck.Web.PamHelper
import SysDeck.Web.Pam
import SysDeck.Web.PamLogin
import SysDeck.Library.Quoting
import SysDeck.Web.FirewallCommands
import SysDeck.Web.FirewallInjection
import SysDeck.Web.FirewallApply
import SysDeck.Web.FirewallRace
import SysDeck.Web.Bans
import SysDeck.Library.PacketFilter
import SysDeck.Library.Words
import SysDeck.Web.FirewallTools
import SysDeck.Web.FirewallAgreement
import SysDeck.Library.Scan
import SysDeck.Web.Packages
import SysDeck.Web.PackageArgv
import SysDeck.Web.PackageNames
import SysDeck.Library.Lines
import SysDeck.Web.Policy
import SysDeck.Web.PolicyInjection
import SysDeck.Cockpit.ModuleRetry
import SysDeck.Cockpit.Cgroups
import SysDeck.Library.StatefulFilter
import SysDeck.Web.FirewallLimits
import SysDeck.Web.FirewallSources
import SysDeck.Cockpit.Profiles
import SysDeck.Cockpit.ProfileLifecycle
import SysDeck.Cockpit.Packages
import SysDeck.Library.Fields
import SysDeck.Cockpit.PackageAgreement
import SysDeck.Cockpit.PackageFiles
import SysDeck.Cockpit.PackageText
import SysDeck.Cockpit.MkosiPackages
import SysDeck.Cockpit.Vmdb2Packages
import SysDeck.Cockpit.PackageAppend
import SysDeck.Library.Polkit
import SysDeck.Web.PolicyMeaning
import SysDeck.Web.HwAlert
import SysDeck.Web.HwBlock
import SysDeck.Web.HwDetection
import SysDeck.Web.Settings
import SysDeck.Web.Integrity
import SysDeck.Web.ReadArgv
import SysDeck.Web.Containers
import SysDeck.Library.Replay
import SysDeck.Fester.Timeline
import SysDeck.Library.RealPath
import SysDeck.Cockpit.HwAlert
import SysDeck.Cockpit.HwAlertGuard
import SysDeck.Web.Modules
import SysDeck.Cockpit.HwWhitelist
import SysDeck.Cockpit.ThemeEdits
import SysDeck.Cockpit.LogPipeline
import SysDeck.Cockpit.LogSummary
import SysDeck.Cockpit.Glances
import SysDeck.Web.NoServices
import SysDeck.Web.NoServicesLimits
import SysDeck.Library.Shell
import SysDeck.Web.VpsWebserver
import SysDeck.Cockpit.ServicePorts
import SysDeck.Cockpit.PortSearch
import SysDeck.Cockpit.PortPatterns
import SysDeck.Cockpit.PortEdits
import SysDeck.Cockpit.Qcrows
import SysDeck.Cockpit.QcrowsVerify
import SysDeck.Cockpit.DbQuery
import SysDeck.Cockpit.Validators
import SysDeck.Cockpit.MkosiEdit
import SysDeck.Cockpit.PackageDryRun
import SysDeck.Cockpit.PackageNames
import SysDeck.Cockpit.MkosiMigration
import SysDeck.Cockpit.BuilderIds
import SysDeck.Cockpit.Vmdb2Edit
import SysDeck.Cockpit.BuilderBuild
import SysDeck.Web.FirewallExposure
import SysDeck.Cockpit.ActiveRuns
import SysDeck.Web.FirewallZones
import SysDeck.Cockpit.Acls
import SysDeck.Cockpit.Vlans
import SysDeck.Library.Hex
import SysDeck.Web.ProcNet
import SysDeck.Web.SocketInventory
import SysDeck.Web.Backups
import SysDeck.Web.FailBans
import SysDeck.Library.Tail
import SysDeck.Library.Utf8Chunks
import SysDeck.Web.Subprocess
import SysDeck.Library.PostOrder
import SysDeck.Fester.BlastRadius
import SysDeck.Library.LongestChain
import SysDeck.Fester.CriticalPath
import SysDeck.Fester.CauseGraph
import SysDeck.Library.Interleaving
import SysDeck.Web.RulePositions
import SysDeck.Web.IntegrityRace
import SysDeck.Cockpit.HwAlertRules
import SysDeck.Library.Occurrences
import SysDeck.Web.Libvirt
import SysDeck.Cockpit.DbConnections
import SysDeck.Web.BuilderProfiles
import SysDeck.Web.Fleet
import SysDeck.Web.FleetReads
import SysDeck.Library.TreeRegion
import SysDeck.Web.Jellyfin
import SysDeck.Web.JellyfinItems
import SysDeck.Web.JellyfinEscape
import SysDeck.Web.BuilderRuns
import SysDeck.Web.BuilderBooks
import SysDeck.Web.BuilderOutcomes
import SysDeck.Library.NumberArithmetic
import SysDeck.Web.Vault
import SysDeck.Web.VaultSizes
import SysDeck.Cockpit.LogPush
import SysDeck.Cockpit.LoopbackUrl
import SysDeck.Fester.Progress
import SysDeck.Cockpit.PromConfig
