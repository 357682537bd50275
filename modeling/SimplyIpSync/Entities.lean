import Mathlib.Tactic

/-!
# Rows and scalar types (`src/entities/`)

The database rows the pipelines read and write, with the columns that modelled code uses.
Identifiers are opaque: a `Uuid` is only compared.  A point in time is an integer, the number of
nanoseconds since the Unix epoch; `timestamp` is the whole number of seconds below it, the form
in which a time is signed and sent.
-/

namespace SimplyIpSync.Entities

/-- An identifier; only equality is ever asked of it. -/
abbrev Uuid := ℕ

/-- Nanoseconds in a second. -/
def nanosPerSec : ℤ := 1000000000

/-- `DateTime::timestamp`: whole seconds, rounded towards minus infinity. -/
def timestamp (t : ℤ) : ℤ := t / nanosPerSec

/-- The earliest second of `chrono`'s `DateTime`. -/
def minDateTimeSecs : ℤ := -8334601228800

/-- The latest second of `chrono`'s `DateTime`. -/
def maxDateTimeSecs : ℤ := 8210266876799

/-- The second is one a clock of type `DateTime` can show. -/
def IsDateTimeSec (sec : ℤ) : Prop := minDateTimeSecs ≤ sec ∧ sec ≤ maxDateTimeSecs

instance (sec : ℤ) : Decidable (IsDateTimeSec sec) := inferInstanceAs (Decidable (_ ∧ _))

theorem timestamp_mul_le (t : ℤ) : timestamp t * nanosPerSec ≤ t := by
  simp only [timestamp, nanosPerSec]
  omega

theorem lt_timestamp_add_one_mul (t : ℤ) : t < (timestamp t + 1) * nanosPerSec := by
  simp only [timestamp, nanosPerSec]
  omega

/-- A `vault_endpoints` row. -/
structure VaultEndpoint where
  id : Uuid
  name : String
  targetUrl : String
  apiKey : String
  signingSecret : String
  deriving DecidableEq, Repr

/-- A `vault_sync_tasks` row. -/
structure VaultSyncTask where
  id : Uuid
  name : String
  sourceVaultId : Uuid
  sourceGroupName : String
  targetGroupName : String
  cronSchedule : String
  lastSyncAt : Option ℤ
  isActive : Bool
  skipBogonFiltering : Bool
  deriving DecidableEq, Repr

/-- A `vault_sync_task_targets` row. -/
structure VaultSyncTaskTarget where
  vaultSyncTaskId : Uuid
  targetVaultId : Uuid
  targetGroupName : Option String
  deriving DecidableEq, Repr

/-- A `destination_groups` row. -/
structure DestinationGroup where
  id : Uuid
  name : String
  targetGroupName : String
  cronSchedule : String
  mode : String
  isActive : Bool
  skipBogonFiltering : Bool
  lastRunAt : Option ℤ
  deriving DecidableEq, Repr

/-- A `destination_group_vault_targets` row. -/
structure DestinationGroupVaultTarget where
  destinationGroupId : Uuid
  vaultEndpointId : Uuid
  targetGroupName : Option String
  deriving DecidableEq, Repr

/-- An `external_sources` row: one feed of a destination group. -/
structure ExternalSource where
  id : Uuid
  destinationGroupId : Uuid
  name : String
  sourceUrl : String
  parserType : String
  parserConfigJson : Option String
  maxAgeDays : Option ℤ
  skipBogonFiltering : Option Bool
  deriving DecidableEq, Repr

/-- The `status` of a job run, as `sync_logs` records it. -/
inductive JobStatus
  | success
  | partialSuccess
  | failed
  deriving DecidableEq, Repr

/-- The stored text of a status. -/
def JobStatus.text : JobStatus → String
  | .success => "SUCCESS"
  | .partialSuccess => "PARTIAL"
  | .failed => "FAILED"

/-- A `sync_logs` row. -/
structure SyncLog where
  jobType : String
  jobId : Uuid
  jobName : String
  status : JobStatus
  itemsProcessed : ℕ
  chunksSent : ℕ
  errorMessage : Option String
  timestamp : ℤ
  deriving DecidableEq, Repr

/-- One entry of the inventory that refuses the deletion of a key. -/
structure OwnedResource where
  resourceType : String
  id : Uuid
  name : String
  ownerKeyId : Option Uuid
  deriving DecidableEq, Repr

/-- `AppError` (`src/error.rs`).  The details of a conflict are the inventory of owned resources. -/
inductive AppError
  | dbError
  | invalidInput (msg : String)
  | unauthorized (msg : String)
  | forbidden (msg : String)
  | notFound
  | conflict (msg : String)
  | conflictWithDetails (msg : String) (owned : List OwnedResource)
  | bodyRejected (status : ℕ) (msg : String)
  | internal
  deriving DecidableEq, Repr

/-- The status code of `AppError::into_response`. -/
def AppError.status : AppError → ℕ
  | .dbError => 500
  | .invalidInput _ => 400
  | .unauthorized _ => 401
  | .forbidden _ => 403
  | .notFound => 404
  | .conflict _ => 409
  | .conflictWithDetails _ _ => 409
  | .bodyRejected status _ => status
  | .internal => 500

/-- The text and the inventory that the body of the response shows; the detail of a server-side
error stays in the log. -/
def AppError.body : AppError → String × List OwnedResource
  | .dbError => ("Internal server error", [])
  | .invalidInput msg => (msg, [])
  | .unauthorized msg => (msg, [])
  | .forbidden msg => (msg, [])
  | .notFound => ("Resource not found", [])
  | .conflict msg => (msg, [])
  | .conflictWithDetails msg owned => (msg, owned)
  | .bodyRejected _ msg => (msg, [])
  | .internal => ("Internal server error", [])

/-- `DatabaseBackend`. -/
inductive DatabaseBackend
  | mySql
  | postgres
  | sqlite
  deriving DecidableEq, Repr

end SimplyIpSync.Entities
