import SimplyIpSync.Net
import SimplyIpSync.Store

/-!
# The rows the API works on (`src/entities/`)

Keys, permissions and audit entries, and the resources with the columns that only handlers use:
the owner, the description and the row's timestamps.  `Database` holds the tables of the service.

A permission row and an audit entry outlive the resource they name; a permission row goes with its
key, and an audit entry then loses its reference to it.
-/

namespace SimplyIpSync.Api

open SimplyIpSync.Crypto SimplyIpSync.Net SimplyIpSync.Entities SimplyIpSync.Storage

/-- An `api_keys` row. -/
structure ApiKey where
  id : Uuid
  name : String
  keyHash : Bytes
  signingSecret : Option Bytes
  keyPrefix : Bytes
  isMaster : Bool
  canManageKeys : Bool
  canManageSources : Bool
  canManageVaults : Bool
  parentKeyId : Option Uuid
  boundIps : Option String
  createdAt : ℤ
  updatedAt : ℤ
  deriving DecidableEq, Repr

/-- An `api_key_sync_permissions` row. -/
structure SyncPermission where
  id : Uuid
  apiKeyId : Uuid
  resourceType : String
  resourceId : Uuid
  canSync : Bool
  canManage : Bool
  canViewLogs : Bool
  createdAt : ℤ
  deriving DecidableEq, Repr

/-- An `audit_logs` row, without its id and the details that no handler writes. -/
structure AuditLog where
  apiKeyId : Option Uuid
  apiKeyName : String
  apiKeyPrefix : Bytes
  clientIp : IpAddr
  action : String
  targetResource : Option String
  timestamp : ℤ
  deriving DecidableEq, Repr

/-- A `vault_endpoints` row with all its columns. -/
structure OwnedVaultEndpoint extends VaultEndpoint where
  description : Option String
  ownerKeyId : Option Uuid
  createdAt : ℤ
  updatedAt : ℤ
  deriving DecidableEq, Repr

/-- A `destination_groups` row with all its columns. -/
structure OwnedDestinationGroup extends DestinationGroup where
  ownerKeyId : Option Uuid
  createdAt : ℤ
  updatedAt : ℤ
  deriving DecidableEq, Repr

/-- A `vault_sync_tasks` row with all its columns. -/
structure OwnedVaultSyncTask extends VaultSyncTask where
  mode : String
  ownerKeyId : Option Uuid
  createdAt : ℤ
  updatedAt : ℤ
  deriving DecidableEq, Repr

/-- An `external_sources` row with all its columns. -/
structure StampedExternalSource extends ExternalSource where
  createdAt : ℤ
  updatedAt : ℤ
  deriving DecidableEq, Repr

/-- The tables of the service, each under its primary key. -/
structure Database where
  apiKeys : Table ApiKey.id
  permissions : Table SyncPermission.id
  vaultEndpoints : Table fun r : OwnedVaultEndpoint => r.id
  destinationGroups : Table fun r : OwnedDestinationGroup => r.id
  groupTargets :
    Table fun r : DestinationGroupVaultTarget => (r.destinationGroupId, r.vaultEndpointId)
  externalSources : Table fun r : StampedExternalSource => r.id
  vaultSyncTasks : Table fun r : OwnedVaultSyncTask => r.id
  taskTargets : Table fun r : VaultSyncTaskTarget => (r.vaultSyncTaskId, r.targetVaultId)
  syncLogs : List SyncLog
  auditLogs : List AuditLog

end SimplyIpSync.Api
