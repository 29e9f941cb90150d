import SmolNas.App.AccountAtomicity
import SmolNas.App.AccountTable
import SmolNas.App.Accounts
import SmolNas.App.AlertRace
import SmolNas.App.AuditTrail
import SmolNas.App.BackupRuns
import SmolNas.App.CommandLines
import SmolNas.App.ConfFaults
import SmolNas.App.ConfTable
import SmolNas.App.Containment
import SmolNas.App.CsrfGate
import SmolNas.App.CsrfRace
import SmolNas.App.DeleteForms
import SmolNas.App.DiskAlerts
import SmolNas.App.DiskHealth
import SmolNas.App.ExplorerReach
import SmolNas.App.FileRemoval
import SmolNas.App.Files
import SmolNas.App.Generate
import SmolNas.App.HealthPage
import SmolNas.App.HealthPanels
import SmolNas.App.LineComments
import SmolNas.App.LoginQuota
import SmolNas.App.LoginRuns
import SmolNas.App.MountPlaces
import SmolNas.App.OptionSafety
import SmolNas.App.Prose
import SmolNas.App.Revocation
import SmolNas.App.RootRemoval
import SmolNas.App.ScriptReview
import SmolNas.App.SettingsReported
import SmolNas.App.SettingsWriters
import SmolNas.App.ShareAdded
import SmolNas.App.ShareBlocks
import SmolNas.App.ShareList
import SmolNas.App.ShareListed
import SmolNas.App.StatusTables
import SmolNas.App.SudoShells
import SmolNas.App.SudoStarted
import SmolNas.App.SystemStats
import SmolNas.App.TailscaleIp
import SmolNas.App.ThrottleRuns
import SmolNas.App.UploadNames
import SmolNas.App.Uploads
import SmolNas.App.UserLines
