import Mathlib.Tactic.IntervalCases
import MutualCloud.Store.Statements

/-!
# The methods of PGStore

The methods of `internal/lease/pg_store.go` as programs over the SQL statements: which statement
a method sends, and how it turns the response into a result or into one of the errors of
`internal/lease/store.go`. Between two statements of one method other callers may act.
-/

namespace MutualCloud.Store

open Go KeyedTable Interaction

/-- The errors that the store returns: the four of `store.go`, and any error of the database. -/
inductive Err where
  | jobNotFound
  | noManifest
  | leaseConflict
  | badToken
  | sql (e : SqlError)
  deriving DecidableEq, Repr

/-- `err.Error()`. -/
def Err.text : Err → String
  | .jobNotFound => "job not found"
  | .noManifest => "manifest not attached"
  | .leaseConflict => "lease still valid"
  | .badToken => "fencing token mismatch"
  | .sql e => e

namespace PGStore

/-- A method of the store is a program over its statements. -/
abbrev Method := Prog Stmt Stmt.Response

/-- The check on `RowsAffected` that four methods make, with the error each reports. -/
def requireRow (missing : Err) : Except SqlError ℕ → Except Err Unit
  | .error e => .error (.sql e)
  | .ok n => if n = 0 then .error missing else .ok ()

/-- `CreateJob`, which does not look at `RowsAffected`. -/
def createJob (job : DBJob) : Method (Except Err Unit) := do
  match ← Prog.perform (Stmt.createJob job) with
  | .error e => pure (.error (.sql e))
  | .ok _ => pure (.ok ())

/-- `GetJob`. -/
def getJob (id : String) : Method (Except Err DBJob) := do
  match ← Prog.perform (Stmt.getJob id) with
  | .error e => pure (.error (.sql e))
  | .ok none => pure (.error .jobNotFound)
  | .ok (some job) => pure (.ok job)

/-- `AttachManifest`. -/
def attachManifest (id : String) (m : Manifest) : Method (Except Err Unit) := do
  let response ← Prog.perform (Stmt.attachManifest id m)
  pure (requireRow .jobNotFound response)

/-- How `TryClaim` explains that its update matched no row of a job that exists. -/
def refusal : Except SqlError (Option (Option String × Bool)) → Err
  | .ok (some (rootCID, leaseValid)) =>
      if rootCID = none ∨ rootCID = some "" then .noManifest
      else if leaseValid then .leaseConflict
      else .leaseConflict
  | .ok none | .error _ => .leaseConflict

/-- `TryClaim`. The two queries after an update without a row only choose the error. -/
def tryClaim (id agentID : String) (ttl : Duration) : Method (Except Err Lease) := do
  match ← Prog.perform (Stmt.tryClaim id agentID ttl) with
  | .error e => pure (.error (.sql e))
  | .ok (some (token, expireAt)) => pure (.ok ⟨agentID, expireAt, uint64 token⟩)
  | .ok none =>
      match ← getJob id with
      | .error e => pure (.error e)
      | .ok _ =>
          let response ← Prog.perform (Stmt.claimRefusal id)
          pure (.error (refusal response))

/-- `Heartbeat`. -/
def heartbeat (id agentID : String) (token : UInt64) (ttl : Duration) :
    Method (Except Err Unit) := do
  let response ← Prog.perform (Stmt.heartbeat id agentID token ttl)
  pure (requireRow .badToken response)

/-- `Finish`, which does not look at `RowsAffected`. -/
def finish (id agentID : String) (token : UInt64) (outcome : Outcome) :
    Method (Except Err Unit) := do
  match ← Prog.perform (Stmt.finish id agentID token outcome) with
  | .error e => pure (.error (.sql e))
  | .ok _ => pure (.ok ())

/-- `ListExpiredLeases`. Its argument `now` is not used: the statement reads the clock itself. -/
def listExpiredLeases (_now : Time) : Method (Except Err (List String)) := do
  match ← Prog.perform Stmt.listExpiredLeases with
  | .error e => pure (.error (.sql e))
  | .ok ids => pure (.ok ids)

/-- `SetStatusQueued`. -/
def setStatusQueued (id : String) : Method (Except Err Unit) := do
  let response ← Prog.perform (Stmt.setStatusQueued id)
  pure (requireRow .jobNotFound response)

/-! ## The result of a claim -/

variable {id agentID : String} {ttl : Duration} {inputs : ℕ → Input} {db : DemandJobs}

/-- A claim that succeeds returns a lease for its caller. -/
theorem try_claim_agent {lease : Lease}
    (h : ((tryClaim id agentID ttl).run effect inputs db).value = .ok lease) :
    lease.agentID = agentID := by
  simp only [tryClaim, getJob, Prog.perform_bind, Prog.run] at h
  split at h
  · cases h
  · cases h
    rfl
  · simp only [Prog.call_bind, Prog.run] at h
    split at h <;> cases h

/-- A claim whose update matches no row is explained by the two further queries. -/
theorem try_claim_refused (hfault : (inputs 0).fault = none)
    (hno : ∀ row, db.lookup id = some row → ¬ row.Claimable (inputs 0).now) :
    ((tryClaim id agentID ttl).run effect inputs db).value =
      match (effect (.getJob id) (inputs 1) db).1 with
      | .error e => .error (.sql e)
      | .ok none => .error .jobNotFound
      | .ok (some _) => .error (refusal (effect (.claimRefusal id) (inputs 2) db).1) := by
  have hu : update db id (Row.Claimable (inputs 0).now) (Row.claim agentID ttl (inputs 0).now) =
      (.ok none, db) := update_of_no_match hno
  have hanswer : effect (.tryClaim id agentID ttl) (inputs 0) db = (.ok none, db) := by
    simp only [effect, hfault, Stmt.exec, hu]
    rfl
  -- neither the refused update nor the read changes the table that the last query sees
  have hstate : (effect (.getJob id) (inputs 1) db).2 = db := by
    cases h : (inputs 1).fault <;> simp [effect, h, Stmt.exec]
  simp only [tryClaim, getJob, Prog.perform_bind, Prog.run, hanswer, Prog.call_bind, hstate]
  rcases (effect (.getJob id) (inputs 1) db).1 with e | (_ | job) <;> rfl

/-- A claim whose update matches a row does not end in `ErrNoManifest`. -/
theorem try_claim_matched {row : Row} (hfault : (inputs 0).fault = none)
    (hrow : db.lookup id = some row) (hguard : row.Claimable (inputs 0).now) :
    ((tryClaim id agentID ttl).run effect inputs db).value ≠ .error .noManifest := by
  cases hset : row.claim agentID ttl (inputs 0).now with
  | error e =>
      have hanswer : (effect (.tryClaim id agentID ttl) (inputs 0) db).1 = .error e := by
        simp [effect, hfault, Stmt.exec, update, hrow, hguard, hset, Except.map]
      simp [tryClaim, Prog.run, hanswer]
  | ok row' =>
      have hanswer : (effect (.tryClaim id agentID ttl) (inputs 0) db).1 =
          .ok (some (Stmt.returning row')) := by
        simp [effect, hfault, Stmt.exec, update, hrow, hguard, hset, Except.map]
      simp [tryClaim, Prog.run, hanswer]

/-- `TryClaim` reports a missing manifest exactly when no statement fails and the job exists, is
not claimable, and has no manifest. -/
theorem try_claim_no_manifest_iff :
    ((tryClaim id agentID ttl).run effect inputs db).value = .error .noManifest ↔
      (∀ k < 3, (inputs k).fault = none) ∧
      ∃ row, db.lookup id = some row ∧ ¬ row.Claimable (inputs 0).now ∧
        (row.manifestRootCID = none ∨ row.manifestRootCID = some "") := by
  cases h₀ : (inputs 0).fault with
  | some e =>
      have hfault : ¬ ∀ k < 3, (inputs k).fault = none := fun h => by simp [h 0] at h₀
      simp [tryClaim, Prog.run, effect, h₀, hfault]
  | none =>
      by_cases hmatch : ∃ row, db.lookup id = some row ∧ row.Claimable (inputs 0).now
      · obtain ⟨row, hrow, hguard⟩ := hmatch
        simp [try_claim_matched h₀ hrow hguard, hrow, hguard]
      · have hno : ∀ row, db.lookup id = some row → ¬ row.Claimable (inputs 0).now :=
          fun row hrow hguard => hmatch ⟨row, hrow, hguard⟩
        rw [try_claim_refused h₀ hno]
        -- the remaining inputs are those of the two queries that choose the error
        have hfaults : (∀ k < 3, (inputs k).fault = none) ↔
            (inputs 1).fault = none ∧ (inputs 2).fault = none := by
          refine ⟨fun h => ⟨h 1 (by omega), h 2 (by omega)⟩, ?_⟩
          rintro ⟨h₁, h₂⟩ k hk
          interval_cases k
          exacts [h₀, h₁, h₂]
        rw [hfaults]
        cases h₁ : (inputs 1).fault with
        | some e => simp [effect, h₁]
        | none =>
            cases hrow : db.lookup id with
            | none => simp [effect, h₁, Stmt.exec, hrow]
            | some row =>
                cases h₂ : (inputs 2).fault with
                | some e => simp [effect, h₁, h₂, Stmt.exec, hrow, refusal]
                | none =>
                    simp [effect, h₁, h₂, Stmt.exec, hrow, refusal, Stmt.refusalColumns,
                      hno row hrow, or_iff_not_imp_left]

end PGStore

end MutualCloud.Store
