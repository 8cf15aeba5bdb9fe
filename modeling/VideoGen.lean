import VideoGen.Lib.Program
import VideoGen.Lib.Run
import VideoGen.Lib.Pool
import VideoGen.Lib.Table
import VideoGen.Entities
import VideoGen.Queue
import VideoGen.World
import VideoGen.JobStatusService
import VideoGen.StorageService
import VideoGen.VideosService
import VideoGen.Processor
import VideoGen.DlqService
import VideoGen.System
import VideoGen.WorkerPhases
import VideoGen.Stages
import VideoGen.Steps
import VideoGen.RowConsistency
import VideoGen.CompletedRows
import VideoGen.CompletedEvents
import VideoGen.Ownership
import VideoGen.StatusCalls
import VideoGen.Attendance
import VideoGen.Settlement
import VideoGen.TerminalEvents
import VideoGen.FailureRecords
import VideoGen.ExhaustedJobs
import VideoGen.RetryCalls
import VideoGen.Lib.Erasure
import VideoGen.TitleEdit
import VideoGen.CacheCoherence
import VideoGen.AccountAccess
import VideoGen.Controllers
import VideoGen.AuthCoverage
import VideoGen.TenantIntegrity
import VideoGen.VideoGateway
import VideoGen.StoredFiles
import VideoGen.ProgressReports
import VideoGen.EventStream
import VideoGen.RetryPolicies
import VideoGen.Lib.Net
import VideoGen.LifeCycle
import VideoGen.Custody
import VideoGen.PartialCalls
import VideoGen.RowWrites
import VideoGen.Origins
import VideoGen.Resurrections
import VideoGen.JobNames
import VideoGen.Creations
import VideoGen.StatusReads
import VideoGen.LateWrites
import VideoGen.Lib.Url
import VideoGen.ObjectKeys
import VideoGen.DownloadLinks
import VideoGen.ProviderAnswers
import VideoGen.AiJobIds
import VideoGen.Retries
import VideoGen.Downloads
import VideoGen.Lib.Paging
import VideoGen.Listings
import VideoGen.Chat
import VideoGen.ChatRooms
import VideoGen.ChatHistory
import VideoGen.RoomPrivacy
import VideoGen.Lib.Text
import VideoGen.Monitoring
import VideoGen.Lib.Numerals
import VideoGen.LinkLifetime
import VideoGen.FakeVideoProvider
import VideoGen.Registrations
import VideoGen.Changes
import VideoGen.Lib.Contract
import VideoGen.Responsibility
import VideoGen.RetryJobIds
import VideoGen.AccountRequests
import VideoGen.Administrators
import VideoGen.Deployment
import VideoGen.HealthyRuns
import VideoGen.References
import VideoGen.Expenses
import VideoGen.Workload
import VideoGen.Completion
import VideoGen.ChatLog
