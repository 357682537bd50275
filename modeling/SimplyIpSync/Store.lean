import SimplyIpSync.Entities
import SimplyIpSync.Lib.Table

/-!
# The database

The tables the pipelines read and write, and the log row that every job run leaves
(`write_sync_log` in `src/jobs/mod.rs`).
-/

namespace SimplyIpSync.Store

open SimplyIpSync.Entities SimplyIpSync.Storage

/-- The modelled tables, each under its primary key. -/
structure Db where
  vaultEndpoints : Table VaultEndpoint.id
  vaultSyncTasks : Table VaultSyncTask.id
  vaultSyncTaskTargets :
    Table fun r : VaultSyncTaskTarget => (r.vaultSyncTaskId, r.targetVaultId)
  destinationGroups : Table DestinationGroup.id
  destinationGroupVaultTargets :
    Table fun r : DestinationGroupVaultTarget => (r.destinationGroupId, r.vaultEndpointId)
  externalSources : Table ExternalSource.id
  syncLogs : List SyncLog

/-- `JobSummary`, without the duration. -/
structure JobSummary where
  status : JobStatus
  itemsProcessed : ℕ
  chunksSent : ℕ
  errorMessage : Option String
  deriving DecidableEq, Repr

/-- `write_sync_log`. -/
def writeSyncLog (db : Db) (jobType : String) (jobId : Uuid) (jobName : String)
    (summary : JobSummary) (startedAt : ℤ) : Db :=
  { db with
    syncLogs := db.syncLogs ++
      [{ jobType := jobType
         jobId := jobId
         jobName := jobName
         status := summary.status
         itemsProcessed := summary.itemsProcessed
         chunksSent := summary.chunksSent
         errorMessage := summary.errorMessage
         timestamp := startedAt }] }

/-- `error_message`: the parts joined, or nothing when there are none. -/
def joinMessage (parts : List String) : Option String :=
  if parts.isEmpty then none else some (String.intercalate "; " parts)

/-- `active.last_sync_at = Set(Some(started_at))`, written to the row of one task. -/
def Db.setLastSyncAt (db : Db) (taskId : Uuid) (startedAt : ℤ) : Db :=
  { db with
    vaultSyncTasks := db.vaultSyncTasks.modify taskId
      (fun task => { task with lastSyncAt := some startedAt }) fun _ => rfl }

end SimplyIpSync.Store
