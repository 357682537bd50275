import SimplyIpSync.Api.Rows

/-!
# The authorization decisions (`src/api/guards.rs`)

Each guard answers one question about the caller, and the lemma beside it says when it lets the
caller pass.
-/

namespace SimplyIpSync.Api

open SimplyIpSync.Entities

/-- `guard_resource_creation`. -/
def guardResourceCreation (caller : ApiKey) (hasRight : Bool) : Except AppError Unit :=
  if caller.isMaster || hasRight then .ok ()
  else .error (.forbidden "missing the resource-creation right for this action")

/-- `guard_scope_elevation`. -/
def guardScopeElevation (caller : ApiKey)
    (wantsCanManageKeys wantsCanManageSources wantsCanManageVaults : Bool) : Except AppError Unit :=
  if (wantsCanManageKeys || wantsCanManageSources || wantsCanManageVaults) && !caller.isMaster then
    .error (.forbidden
      "only the Master key may grant can_manage_keys, can_manage_sources, or can_manage_vaults")
  else .ok ()

/-- `guard_resource_manage`. -/
def guardResourceManage (caller : ApiKey) (permission : Option SyncPermission) :
    Except AppError Unit :=
  if caller.isMaster then .ok ()
  else if caller.canManageKeys && permission.any fun p => p.canManage then .ok ()
  else
    .error (.forbidden
      "managing this resource requires can_manage_keys and a can_manage grant on it (RBAC R2)")

/-- `guard_resource_lifecycle`. -/
def guardResourceLifecycle (caller : ApiKey) (ownerKeyId : Option Uuid) : Except AppError Unit :=
  if caller.isMaster || ownerKeyId == some caller.id then .ok ()
  else
    .error (.forbidden
      "only the Master key or this resource's owner may delete or rename it (RBAC §3)")

/-- `guard_can_sync`. -/
def guardCanSync (caller : ApiKey) (permission : Option SyncPermission) : Except AppError Unit :=
  if caller.isMaster || permission.any fun p => p.canSync then .ok ()
  else .error (.forbidden "missing can_sync permission on this resource")

/-- `guard_can_view_logs`. -/
def guardCanViewLogs (caller : ApiKey) (permission : Option SyncPermission) : Bool :=
  caller.isMaster || permission.any fun p => p.canViewLogs

/-- `guard_delegated_grant`. -/
def guardDelegatedGrant (caller : ApiKey) (callerPermission : Option SyncPermission)
    (grantCanSync grantCanManage grantCanViewLogs : Bool) : Except AppError Unit :=
  if caller.isMaster then .ok ()
  else
    match guardResourceManage caller callerPermission with
    | .error e => .error e
    | .ok () =>
        if grantCanSync && !callerPermission.any fun p => p.canSync then
          .error (.forbidden
            "cannot grant can_sync without holding it yourself on this resource (RBAC R1)")
        else if grantCanViewLogs && !callerPermission.any fun p => p.canViewLogs then
          .error (.forbidden
            "cannot grant can_view_logs without holding it yourself on this resource (RBAC R1)")
        else if grantCanManage && !callerPermission.any fun p => p.canManage then
          .error (.forbidden
            "cannot grant can_manage without holding it yourself on this resource (RBAC R1)")
        else .ok ()

/-- `guard_revocation`. -/
def guardRevocation (caller : ApiKey) (callerPermission : Option SyncPermission) :
    Except AppError Unit :=
  guardResourceManage caller callerPermission

/-- `guard_master_immutable`. -/
def guardMasterImmutable (targetIsMaster changingNonBoundIpsField : Bool) : Except AppError Unit :=
  if targetIsMaster && changingNonBoundIpsField then
    .error (.forbidden
      "the Master key is immutable through the API except for its own bound_ips (RBAC §5)")
  else .ok ()

/-- `guard_rotation_allowed`. -/
def guardRotationAllowed (targetIsMaster : Bool) : Except AppError Unit :=
  if targetIsMaster then
    .error (.forbidden "the Master key's credentials cannot be rotated through the API (RBAC §5)")
  else .ok ()

/-- `guard_manage_keys`. -/
def guardManageKeys (caller : ApiKey) : Except AppError Unit :=
  if caller.isMaster || caller.canManageKeys then .ok ()
  else .error (.forbidden "missing can_manage_keys")

/-! ### When a guard lets its caller pass -/

section Pass

variable {caller : ApiKey} {permission : Option SyncPermission}

theorem guardScopeElevation_ok {wantsKeys wantsSources wantsVaults : Bool} :
    guardScopeElevation caller wantsKeys wantsSources wantsVaults = .ok () ↔
      caller.isMaster = true ∨
        (wantsKeys = false ∧ wantsSources = false ∧ wantsVaults = false) := by
  cases hmaster : caller.isMaster <;> cases wantsKeys <;> cases wantsSources <;>
    cases wantsVaults <;> simp [guardScopeElevation, hmaster]

theorem guardResourceLifecycle_ok {ownerKeyId : Option Uuid} :
    guardResourceLifecycle caller ownerKeyId = .ok () ↔
      caller.isMaster = true ∨ ownerKeyId = some caller.id := by
  cases hmaster : caller.isMaster <;> simp [guardResourceLifecycle, hmaster]

/-- **R1 and R2 together.** -/
theorem guardDelegatedGrant_ok {sync manage viewLogs : Bool} :
    guardDelegatedGrant caller permission sync manage viewLogs = .ok () ↔
      caller.isMaster = true ∨
        (caller.canManageKeys = true ∧ ∃ p, permission = some p ∧ p.canManage = true ∧
          (sync = true → p.canSync = true) ∧ (viewLogs = true → p.canViewLogs = true)) := by
  cases hmaster : caller.isMaster with
  | true => simp [guardDelegatedGrant, hmaster]
  | false =>
      cases hkeys : caller.canManageKeys with
      | false => simp [guardDelegatedGrant, guardResourceManage, hmaster, hkeys]
      | true =>
          cases permission with
          | none => simp [guardDelegatedGrant, guardResourceManage, hmaster]
          | some p =>
              cases hmanage : p.canManage <;> cases hsync : p.canSync <;>
                cases hview : p.canViewLogs <;> cases sync <;> cases viewLogs <;> cases manage <;>
                simp [guardDelegatedGrant, guardResourceManage, hmaster, hkeys, hmanage, hsync,
                  hview]

theorem guardMasterImmutable_ok {targetIsMaster changing : Bool} :
    guardMasterImmutable targetIsMaster changing = .ok () ↔
      targetIsMaster = false ∨ changing = false := by
  cases targetIsMaster <;> cases changing <;> simp [guardMasterImmutable]

theorem guardRotationAllowed_ok {targetIsMaster : Bool} :
    guardRotationAllowed targetIsMaster = .ok () ↔ targetIsMaster = false := by
  cases targetIsMaster <;> simp [guardRotationAllowed]

theorem guardManageKeys_ok :
    guardManageKeys caller = .ok () ↔ caller.isMaster = true ∨ caller.canManageKeys = true := by
  cases hmaster : caller.isMaster <;> simp [guardManageKeys, hmaster]

end Pass

end SimplyIpSync.Api
