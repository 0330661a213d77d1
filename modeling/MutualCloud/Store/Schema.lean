import MutualCloud.Go.Integers
import MutualCloud.Library.KeyedTable

/-!
# The demand_jobs table

Rows of `configs/schema.sql` and the row-level parts of the statements in
`internal/lease/pg_store.go`: for every `UPDATE` its `WHERE` clause as a predicate on the row
and its `SET` clause as a function of the row. A nullable column is an `Option`, and a
comparison with `NULL` is not true. `lease_token` is a `BIGINT` and `retry_count` an `INTEGER`,
so the two increments fail where the column type ends.
-/

namespace MutualCloud.Store

open Go KeyedTable

/-- `lease.JobStatus`, a string type with five constants; `other` is any further string. -/
inductive JobStatus where
  | queued
  | assigned
  | running
  | succeeded
  | failed
  | other (text : String)
  deriving DecidableEq, Repr

/-- The two statuses that `Finish` writes. -/
def JobStatus.Terminal (status : JobStatus) : Prop :=
  status = .succeeded ∨ status = .failed

/-- The two statuses of a leased job. -/
def JobStatus.Active (status : JobStatus) : Prop :=
  status = .assigned ∨ status = .running

instance (status : JobStatus) : Decidable status.Terminal :=
  inferInstanceAs (Decidable (_ ∨ _))

instance (status : JobStatus) : Decidable status.Active :=
  inferInstanceAs (Decidable (_ ∨ _))

/-- A leased job has not ended. -/
theorem JobStatus.Active.not_terminal {status : JobStatus} (h : status.Active) :
    ¬ status.Terminal := by
  rcases h with rfl | rfl <;> decide

theorem JobStatus.Terminal.not_active {status : JobStatus} (h : status.Terminal) :
    ¬ status.Active := fun hactive => hactive.not_terminal h

theorem JobStatus.Active.ne_queued {status : JobStatus} (h : status.Active) :
    status ≠ .queued := by
  rcases h with rfl | rfl <;> decide

theorem JobStatus.Terminal.ne_queued {status : JobStatus} (h : status.Terminal) :
    status ≠ .queued := by
  rcases h with rfl | rfl <;> decide

/-- A Go `[]string`, which is nil or a list; its JSON is `null` or an array. -/
abbrev Strings := Option (List String)

/-- A Go `map[string]any`, which is nil or a list of keys with the JSON text of their values. -/
abbrev Metrics := Option (List (String × String))

/-- The text of an error that the database reports. -/
abbrev SqlError := String

/-- `lease.DBJob`. -/
structure DBJob where
  id : String
  image : String
  command : Strings
  status : JobStatus
  createdAt : Time
  retryCount : Int
  deriving DecidableEq, Repr

/-- `lease.Manifest`. -/
structure Manifest where
  rootCID : String
  providers : Strings
  encMeta : String
  deriving DecidableEq, Repr

/-- `lease.Lease`. -/
structure Lease where
  agentID : String
  expireAt : Time
  fencingToken : UInt64
  deriving DecidableEq

/-- The report carried by `Finish`: everything but the job, the agent and the token. -/
structure Outcome where
  succeeded : Bool
  resultCID : String
  artifacts : Strings
  metrics : Metrics
  deriving DecidableEq, Repr

/-- The status that `Finish` records. -/
def Outcome.status (outcome : Outcome) : JobStatus :=
  if outcome.succeeded then .succeeded else .failed

/-- Whatever is reported, the job ends. -/
theorem Outcome.status_terminal (outcome : Outcome) : outcome.status.Terminal := by
  unfold Outcome.status
  split
  · exact .inl rfl
  · exact .inr rfl

/-- One row of `demand_jobs` without its primary key. -/
structure Row where
  image : String
  command : Strings
  status : JobStatus
  createdAt : Time
  retryCount : Int
  manifestRootCID : Option String
  manifestProviders : Option Strings
  manifestEncMeta : Option String
  leaseAgent : Option String
  leaseExpiresAt : Option Time
  leaseToken : Int
  resultRootCID : Option String
  artifacts : Option Strings
  metrics : Option Metrics
  deriving DecidableEq, Repr

/-- The table, keyed by `id`. -/
abbrev DemandJobs := Table String Row

/-- `column < t`, which is not true of `NULL`. -/
def Before (column : Option Time) (t : Time) : Prop :=
  ∃ x ∈ column, x < t

instance (column : Option Time) (t : Time) : Decidable (Before column t) :=
  inferInstanceAs (Decidable (∃ x ∈ column, x < t))

namespace Row

/-- The row inserted by `CreateJob`; the other columns take their defaults. -/
def fresh (job : DBJob) : Row where
  image := job.image
  command := job.command
  status := job.status
  createdAt := job.createdAt
  retryCount := 0
  manifestRootCID := none
  manifestProviders := none
  manifestEncMeta := none
  leaseAgent := none
  leaseExpiresAt := none
  leaseToken := 0
  resultRootCID := none
  artifacts := none
  metrics := none

/-- The assignment of `AttachManifest`. -/
def attach (m : Manifest) (row : Row) : Row :=
  { row with
    manifestRootCID := some m.rootCID
    manifestProviders := some m.providers
    manifestEncMeta := some m.encMeta }

/-- The guard of `TryClaim`. -/
def Claimable (now : Time) (row : Row) : Prop :=
  row.status = .queued ∧ (row.leaseExpiresAt = none ∨ Before row.leaseExpiresAt now)

/-- The assignment of `TryClaim`. -/
def claim (agentID : String) (ttl : Duration) (now : Time) (row : Row) : Except SqlError Row :=
  if row.leaseToken + 1 < 2 ^ 63 then
    .ok { row with
      leaseAgent := some agentID
      leaseExpiresAt := some (now + seconds ttl * second)
      leaseToken := row.leaseToken + 1
      status := .assigned }
  else .error "bigint out of range"

/-- The guard of `Heartbeat`. -/
def HeldBy (agentID : String) (token : UInt64) (row : Row) : Prop :=
  row.leaseAgent = some agentID ∧ row.leaseToken = int64 token

/-- The assignment of `Heartbeat`. -/
def renew (ttl : Duration) (now : Time) (row : Row) : Row :=
  { row with leaseExpiresAt := some (now + seconds ttl * second), status := .running }

/-- The guard of `Finish`. -/
def Finishable (agentID : String) (token : UInt64) (row : Row) : Prop :=
  (row.leaseAgent = some agentID ∨ row.leaseAgent = none) ∧ row.leaseToken ≤ int64 token

/-- The assignment of `Finish`. -/
def finish (outcome : Outcome) (row : Row) : Row :=
  { row with
    status := outcome.status
    resultRootCID := some outcome.resultCID
    artifacts := some outcome.artifacts
    metrics := some outcome.metrics
    leaseAgent := none
    leaseExpiresAt := none }

/-- The guard of `SetStatusQueued`, which is also the filter of `ListExpiredLeases`. -/
def Expired (now : Time) (row : Row) : Prop :=
  row.status.Active ∧ row.leaseExpiresAt ≠ none ∧ Before row.leaseExpiresAt now

/-- The assignment of `SetStatusQueued`. -/
def requeue (row : Row) : Except SqlError Row :=
  if row.retryCount + 1 < 2 ^ 31 then
    .ok { row with
      status := .queued
      leaseAgent := none
      leaseExpiresAt := none
      retryCount := row.retryCount + 1 }
  else .error "integer out of range"

instance (now : Time) : DecidablePred (Claimable now) :=
  fun _ => inferInstanceAs (Decidable (_ ∧ _))

instance (agentID : String) (token : UInt64) : DecidablePred (HeldBy agentID token) :=
  fun _ => inferInstanceAs (Decidable (_ ∧ _))

instance (agentID : String) (token : UInt64) : DecidablePred (Finishable agentID token) :=
  fun _ => inferInstanceAs (Decidable (_ ∧ _))

instance (now : Time) : DecidablePred (Expired now) :=
  fun _ => inferInstanceAs (Decidable (_ ∧ _))

/-- A claim that succeeds issues the next token. -/
theorem claim_ok {agentID : String} {ttl : Duration} {now : Time} {row row' : Row}
    (h : row.claim agentID ttl now = .ok row') :
    row.leaseToken + 1 < 2 ^ 63 ∧
      row' = { row with
        leaseAgent := some agentID
        leaseExpiresAt := some (now + seconds ttl * second)
        leaseToken := row.leaseToken + 1
        status := .assigned } := by
  unfold claim at h
  split at h
  next hlt => exact ⟨hlt, (Except.ok.inj h).symm⟩
  next => cases h

/-- A requeue that succeeds clears the lease and counts the retry. -/
theorem requeue_ok {row row' : Row} (h : row.requeue = .ok row') :
    row.retryCount + 1 < 2 ^ 31 ∧
      row' = { row with
        status := .queued
        leaseAgent := none
        leaseExpiresAt := none
        retryCount := row.retryCount + 1 } := by
  unfold requeue at h
  split at h
  next hlt => exact ⟨hlt, (Except.ok.inj h).symm⟩
  next => cases h

end Row

end MutualCloud.Store
