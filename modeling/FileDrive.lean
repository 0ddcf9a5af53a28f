import FileDrive.Error
import FileDrive.Range
import FileDrive.Record.Json
import FileDrive.Resolver
import FileDrive.Time.Printer
import FileDrive.Time.Parser
import FileDrive.Metadata.Row
import FileDrive.Metadata.Database
import FileDrive.Metadata.Files
import FileDrive.Metadata.Records
import FileDrive.Metadata.Users
import FileDrive.Metadata.Sessions
import FileDrive.Metadata.Shares
import FileDrive.Access
import FileDrive.Storage.Directory
import FileDrive.Storage.Bucket
import FileDrive.Drive
import FileDrive.MediaType
import FileDrive.Service.Listing
import FileDrive.Service.Upload
import FileDrive.Service.Batch
import FileDrive.Service.Permissions
import FileDrive.Service.Shares
import FileDrive.Login
import FileDrive.Metadata.Json
import FileDrive.Service.Json
import FileDrive.Storage.Backend
import FileDrive.Text.Utf8
import FileDrive.Web.Router
import FileDrive.Text.Reader
import FileDrive.Toml.Moment
import FileDrive.Toml.Number
import FileDrive.Toml.Quoted
import FileDrive.Toml.Decoder
import FileDrive.Toml.Document
import FileDrive.Settings
import FileDrive.Settings.Display
import FileDrive.Settings.File
import FileDrive.Log
import FileDrive.Metadata.DatabaseFile
import FileDrive.SocketAddress
import FileDrive.Proofs.Action
import FileDrive.Proofs.CanonicalPath
import FileDrive.Proofs.Tables
import FileDrive.Proofs.EffectivePermissions
import FileDrive.Proofs.Outcomes
import FileDrive.Proofs.Requests
import FileDrive.Proofs.BatchOutcomes
import FileDrive.Proofs.Serving
import FileDrive.Proofs.Mediation
import FileDrive.Proofs.TreeShape
import FileDrive.Proofs.Logins
import FileDrive.Proofs.ShareReach
import FileDrive.Proofs.TreeFiles
import FileDrive.Proofs.DirectoryObjects
import FileDrive.Proofs.Consistency
import FileDrive.Proofs.Resolution
import FileDrive.Proofs.AllOrNothing
import FileDrive.Proofs.BucketUploads
import FileDrive.Proofs.TreeDirectories
import FileDrive.Proofs.DirectoryLeftovers
import FileDrive.Proofs.PermissionAgreement
import FileDrive.Proofs.StoredPaths
import FileDrive.Proofs.DirectoryRequests
import FileDrive.Proofs.DirectoryDeletion
import FileDrive.Proofs.DirectoryMove
import FileDrive.Proofs.AlikeDrives
import FileDrive.Proofs.SingleMoves
import FileDrive.Proofs.OrderedMetadata
import FileDrive.Proofs.HiddenFiles
import FileDrive.Proofs.HiddenListings
import FileDrive.Proofs.ShareScope
import FileDrive.Proofs.DayNumbers
import FileDrive.Proofs.StoredTimes
import FileDrive.Proofs.SessionLogs
import FileDrive.Proofs.SessionCalls
import FileDrive.Proofs.SessionLifecycle
import FileDrive.Proofs.RangeHeaders
import FileDrive.Proofs.StreamParts
import FileDrive.Proofs.UploadedParts
import FileDrive.Proofs.OpenableFiles
import FileDrive.Proofs.RangedDownloads
import FileDrive.Proofs.ClockProgress
import FileDrive.Proofs.FileLives
import FileDrive.Proofs.FileOwners
import FileDrive.Proofs.EscapedKeys
import FileDrive.Proofs.BucketMoves
import FileDrive.Proofs.OpenUploads
import FileDrive.Proofs.RenamedRecords
import FileDrive.Proofs.RenamesAgree
import FileDrive.Proofs.RecordReplacement
import FileDrive.Proofs.StoredGroups
import FileDrive.Proofs.DirectorySummaries
import FileDrive.Proofs.FileAnswers
import FileDrive.Proofs.PathNormalization
import FileDrive.Proofs.PathAncestry
import FileDrive.Proofs.DownloadNames
import FileDrive.Proofs.TreeWalks
import FileDrive.Proofs.DirectoryCleanup
import FileDrive.Proofs.RebasedPaths
import FileDrive.Proofs.ObjectPlaces
import FileDrive.Proofs.ComparedTimes
