import OutboxFormal.Library.GoErrors
import OutboxFormal.Library.Table
import OutboxFormal.Library.Machine
import OutboxFormal.Library.Program
import OutboxFormal.Library.Concurrency
import OutboxFormal.Library.Maintained
import OutboxFormal.Library.RwLock
import OutboxFormal.Library.Scripts
import OutboxFormal.Library.Observers
import OutboxFormal.Library.Chronicle
import OutboxFormal.Library.Runs
import OutboxFormal.Library.Guarded
import OutboxFormal.Library.Prefix
import OutboxFormal.Library.Selection
import OutboxFormal.Library.Keyset
import OutboxFormal.Library.Utf8
import OutboxFormal.Library.Frames
import OutboxFormal.Library.Delimited
import OutboxFormal.Library.Calendar
import OutboxFormal.Library.Words
import OutboxFormal.Core.Types
import OutboxFormal.Core.Strings
import OutboxFormal.Storage.Statements
import OutboxFormal.Storage.Transaction
import OutboxFormal.Storage.Outcomes
import OutboxFormal.Storage.Pgsql
import OutboxFormal.Storage.DatabaseSql
import OutboxFormal.Storage.Mysql
import OutboxFormal.Storage.Sqlite
import OutboxFormal.Storage.ImmediateTransaction
import OutboxFormal.Storage.Registry
import OutboxFormal.Storage.Fingerprints
import OutboxFormal.Storage.Rows
import OutboxFormal.Storage.Claims
import OutboxFormal.Storage.Repository
import OutboxFormal.Storage.RowInvariant
import OutboxFormal.Storage.BatchFinalization
import OutboxFormal.Storage.Staging
import OutboxFormal.Storage.CallerTransaction
import OutboxFormal.Storage.NestedTransactions
import OutboxFormal.Storage.Idempotency
import OutboxFormal.Storage.ClaimContract
import OutboxFormal.Storage.AttemptRange
import OutboxFormal.Storage.QueueStats
import OutboxFormal.Storage.RowLifecycle
import OutboxFormal.Storage.SqliteLeases
import OutboxFormal.Storage.Pagination
import OutboxFormal.Storage.Picodata
import OutboxFormal.Storage.PicodataClaims
import OutboxFormal.Storage.MysqlClaims
import OutboxFormal.Storage.TableNames
import OutboxFormal.Migrations.Files
import OutboxFormal.Migrations.Commands
import OutboxFormal.Migrations.Completeness
import OutboxFormal.Migrations.Parsing
import OutboxFormal.Service.Effects
import OutboxFormal.Service.LeaseManager
import OutboxFormal.Service.Claim
import OutboxFormal.Service.ExecutionBatch
import OutboxFormal.Service.Settlements
import OutboxFormal.Service.Worker
import OutboxFormal.Service.World
import OutboxFormal.Service.LedgerBound
import OutboxFormal.Service.Custody
import OutboxFormal.Service.Callbacks
import OutboxFormal.Service.StartedWork
import OutboxFormal.Service.Acknowledgements
import OutboxFormal.Service.Footprints
import OutboxFormal.Service.Skeleton
import OutboxFormal.Service.BoundedClaims
import OutboxFormal.Service.Backoff
import OutboxFormal.Service.BatchResults
import OutboxFormal.Service.Registration
import OutboxFormal.Service.RegistrationProtocol
import OutboxFormal.Service.RegistrationRuns
import OutboxFormal.Service.Dispositions
import OutboxFormal.Service.GroupRuns
import OutboxFormal.Service.Scheduling
import OutboxFormal.Service.LeaseSections
import OutboxFormal.Service.LeaseClients
import OutboxFormal.Service.Deferrals
import OutboxFormal.Service.Pauses
import OutboxFormal.Fanout.Snapshot
import OutboxFormal.Fanout.Normalization
import OutboxFormal.Fanout.Dispatch
import OutboxFormal.Fanout.Acceptance
import OutboxFormal.Fanout.Identities
import OutboxFormal.Fanout.ExactlyOnce
import OutboxFormal.Fanout.Repository
import OutboxFormal.Replay.Program
import OutboxFormal.Replay.World
import OutboxFormal.Replay.Stages
import OutboxFormal.Replay.Journal
import OutboxFormal.Replay.Steps
import OutboxFormal.Replay.Safety
