import Omnion.Library.Fallible
import Omnion.Library.Run
import Omnion.Library.Walk
import Omnion.Library.Strongest
import Omnion.Library.Forest
import Omnion.Library.Query
import Omnion.Library.Table
import Omnion.Library.Fencing
import Omnion.Library.Sorting
import Omnion.Library.Cursor
import Omnion.Library.Printing
import Omnion.Library.LocalTime
import Omnion.Library.Reader
import Omnion.Library.Bytes
import Omnion.Library.Exclusion
import Omnion.Library.Search
import Omnion.Library.Delimited
import Omnion.Library.Selection
import Omnion.Library.Counters
import Omnion.Library.Checked
import Omnion.Library.Words
import Omnion.Library.Versions
import Omnion.Library.Markup
import Omnion.Library.Wrapping
import Omnion.Library.Files
import Omnion.Library.Glob
import Omnion.Library.Log
import Omnion.Library.MailText
import Omnion.Library.Serial
import Omnion.Library.Nested
import Omnion.Library.Paths
import Omnion.Core.Text
import Omnion.Core.Json
import Omnion.Core.JsonText
import Omnion.Core.Net
import Omnion.Core.Base64Url
import Omnion.Core.PushCrypto
import Omnion.Permissions.Model
import Omnion.Permissions.Evaluate
import Omnion.Permissions.Verdict
import Omnion.Permissions.Store
import Omnion.Permissions.Catalogue
import Omnion.Permissions.Roles
import Omnion.Permissions.RoleTree
import Omnion.Permissions.Approvals
import Omnion.Permissions.MatrixSave
import Omnion.Library.Keyed
import Omnion.Permissions.RoleDiff
import Omnion.Permissions.LastOwner
import Omnion.Permissions.Matching
import Omnion.Permissions.Bindings
import Omnion.Permissions.ScimGroups
import Omnion.Workflows.Model
import Omnion.Workflows.Store
import Omnion.Workflows.Engine
import Omnion.Workflows.Lease
import Omnion.Workflows.Waits
import Omnion.Workflows.Settlement
import Omnion.Workflows.Closure
import Omnion.Workflows.Cron
import Omnion.Workflows.CronNext
import Omnion.Events.Model
import Omnion.Events.Store
import Omnion.Events.Runner
import Omnion.Events.Attempts
import Omnion.Events.Outcomes
import Omnion.Events.Retention
import Omnion.Events.Catalogue
import Omnion.PolicyEngine.Condition
import Omnion.PolicyEngine.PolicySet
import Omnion.PolicyEngine.Targets
import Omnion.PolicyEngine.Attributes
import Omnion.Permissions.PolicyAttributes
import Omnion.Automation.Binding
import Omnion.Automation.Template
import Omnion.Automation.Mail
import Omnion.Backup.Part
import Omnion.Backup.Crypto
import Omnion.Backup.Verify
import Omnion.Backup.Canonical
import Omnion.Backup.Cadence
import Omnion.Backup.NextRun
import Omnion.Backup.RestoreJobs
import Omnion.Backup.Sweep
import Omnion.Automation.Matcher
import Omnion.Identity.Cbor
import Omnion.Identity.Challenges
import Omnion.Identity.SsoChallenges
import Omnion.Identity.Sessions
import Omnion.Identity.Secrets
import Omnion.Identity.Totp
import Omnion.Identity.Base32
import Omnion.Identity.Factors
import Omnion.Identity.Devices
import Omnion.Identity.Domains
import Omnion.Identity.RecoveryCodes
import Omnion.Identity.WebAuthn
import Omnion.Identity.Passkeys
import Omnion.Security.Lockout
import Omnion.Identity.SignIn
import Omnion.Identity.Guessing
import Omnion.Identity.Validity
import Omnion.Identity.Oidc
import Omnion.Identity.Saml
import Omnion.Identity.SamlBinding
import Omnion.Security.Csv
import Omnion.Security.IpRules
import Omnion.Security.Limiter
import Omnion.Security.LimiterRedis
import Omnion.Security.Headers
import Omnion.Backup.Preview
import Omnion.Media.Grants
import Omnion.Media.Retention
import Omnion.Media.Purge
import Omnion.Media.Versions
import Omnion.Media.Scanning
import Omnion.Media.Quarantine
import Omnion.Health.Breaches
import Omnion.Health.Incidents
import Omnion.Storage.Fs
import Omnion.Notifications.Model
import Omnion.Notifications.Router
import Omnion.Developer.Keys
import Omnion.AiHub.Store
import Omnion.Notifications.Delivery
import Omnion.Notifications.Emit
import Omnion.Notifications.Queue
import Omnion.Notifications.Orderly
import Omnion.Search.Indexer
import Omnion.Media.Folders
import Omnion.Media.FolderStore
import Omnion.Identity.SamlWindow
import Omnion.Identity.SamlDer
import Omnion.Identity.Cose
import Omnion.Identity.AuthData
import Omnion.Library.Prefixes
import Omnion.Core.NetText
import Omnion.Identity.IpLists
import Omnion.Identity.PolicyPatch
import Omnion.Security.CidrText
import Omnion.Library.Calendar
import Omnion.Media.Ranges
import Omnion.Backup.RestorePlan
import Omnion.Backup.RestoreObjects
import Omnion.Backup.Epoch
import Omnion.Library.DepthFirst
import Omnion.Library.Guarded
import Omnion.Core.FlatJson
import Omnion.Media.FolderMove
import Omnion.Backup.RemoveRun
import Omnion.Media.Exif
import Omnion.Media.ExifStore
import Omnion.Media.ExifOrder
import Omnion.Health.Settings
import Omnion.Media.Pixels
import Omnion.Media.MetadataPairs
import Omnion.Search.QueryText
import Omnion.Core.Vapid
import Omnion.Media.Validators
import Omnion.Library.Paging
import Omnion.Notifications.Inbox
import Omnion.Developer.KeyChain
import Omnion.Core.Utf8
import Omnion.Library.Frames
import Omnion.AiHub.Stream
import Omnion.Media.Probe
import Omnion.Media.ProbeWalks
import Omnion.Media.ProbeHeaders
