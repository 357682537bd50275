import SimplyIpSync.Entities

/-!
# The client's data (`src/client.rs`)

Errors, batch modes and the records of the two requests this service sends to a remote vault.
`Http W` collects what an outbound request does to the world outside the modelled code: one
`post_batch_once`, one `get_ips_page`, and the sleep between two attempts.  Everything the
remote vault may answer, and everything it may do before it answers, is a choice of `Http W`.
-/

namespace SimplyIpSync.Client

open SimplyIpSync.Entities

/-- Failure modes of an outbound call. -/
inductive ClientError
  | invalidUrl (msg : String)
  | decrypt
  | signing
  | request (msg : String)
  | remoteError (status : ℕ) (body : String)
  deriving DecidableEq, Repr

/-- The `#[error(...)]` texts. -/
def ClientError.display : ClientError → String
  | .invalidUrl msg => "invalid target_url: " ++ msg
  | .decrypt => "failed to decrypt vault endpoint signing secret"
  | .signing => "failed to compute request signature"
  | .request msg => "request to vault endpoint failed: " ++ msg
  | .remoteError status body => "vault endpoint returned " ++ toString status ++ ": " ++ body

/-- How a batch reconciles against what is already in the target group. -/
inductive BatchMode
  | upsert
  | fullReplace
  deriving DecidableEq, Repr

/-- `BatchMode::parse`. -/
def BatchMode.parse : String → Option BatchMode
  | "upsert" => some .upsert
  | "full_replace" => some .fullReplace
  | _ => none

/-- One record of a `POST /api/records/batch` request. -/
structure BatchRecordInput where
  targetAddress : String
  cause : Option String
  isDeleted : Option Bool
  createdAt : Option ℤ
  updatedAt : Option ℤ
  lastSeenAt : Option ℤ
  deletedAt : Option ℤ
  deriving DecidableEq, Repr

/-- One record as `GET /api/ips` returns it. -/
structure IpRecordResponse where
  targetAddress : String
  groupName : String
  cause : Option String
  isDeleted : Bool
  deletedAt : Option ℤ
  createdAt : Option ℤ
  updatedAt : Option ℤ
  lastSeenAt : Option ℤ
  deriving DecidableEq, Repr

/-- The counts a vault answers a batch with; `u64` fields. -/
structure BatchRecordsResponse where
  created : UInt64
  updated : UInt64
  restored : UInt64
  lockedSkipped : UInt64
  softDeleted : UInt64
  linked : UInt64
  deriving DecidableEq, Repr

/-- `BatchRecordsResponse::default`. -/
def BatchRecordsResponse.default : BatchRecordsResponse := ⟨0, 0, 0, 0, 0, 0⟩

/-- `BatchRecordsResponse::merge`, field-wise. -/
def BatchRecordsResponse.merge (self other : BatchRecordsResponse) : BatchRecordsResponse where
  created := self.created + other.created
  updated := self.updated + other.updated
  restored := self.restored + other.restored
  lockedSkipped := self.lockedSkipped + other.lockedSkipped
  softDeleted := self.softDeleted + other.softDeleted
  linked := self.linked + other.linked

/-- What the outbound calls do to the world `W`. -/
structure Http (W : Type*) where
  /-- One `post_batch_once`: sign, send, read the answer. -/
  postBatchOnce : VaultEndpoint → String → List BatchRecordInput → BatchMode → W →
    Except ClientError BatchRecordsResponse × W
  /-- One `get_ips_page`: group name, `since`, `include_deleted`, offset. -/
  getIpsPage : VaultEndpoint → String → Option ℤ → Bool → ℕ → W →
    Except ClientError (List IpRecordResponse) × W
  /-- `tokio::time::sleep(backoff_with_jitter(attempt)).await`. -/
  backoff : ℕ → W → W

end SimplyIpSync.Client
