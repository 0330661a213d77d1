import MutualCloud.Library.Interaction
import MutualCloud.Store.Schema

/-!
# The SQL statements of the store

`Stmt` lists the statements of `internal/lease/pg_store.go` under the names and arguments of the
methods that send them. Each method has one statement that writes; `claimRefusal` is the second
query that `TryClaim` makes to explain a refused claim. A statement is atomic, reads `now()`
once, and may be answered by an error of the database instead, which leaves the table alone.

`row_step` says once what a statement can do to the row of one job. Every invariant of
the store is derived from it.
-/

namespace MutualCloud.Store

open Go KeyedTable Interaction

/-- The statements of the store, with the Go arguments of their methods. -/
inductive Stmt where
  | createJob (job : DBJob)
  | getJob (id : String)
  | attachManifest (id : String) (m : Manifest)
  | tryClaim (id agentID : String) (ttl : Duration)
  | claimRefusal (id : String)
  | heartbeat (id agentID : String) (token : UInt64) (ttl : Duration)
  | finish (id agentID : String) (token : UInt64) (outcome : Outcome)
  | listExpiredLeases
  | setStatusQueued (id : String)
  deriving DecidableEq

namespace Stmt

/-- What a statement returns: a number of affected rows, or the columns it selects. -/
abbrev Rows : Stmt → Type
  | createJob _ | attachManifest _ _ | heartbeat _ _ _ _ | finish _ _ _ _ | setStatusQueued _ => ℕ
  | getJob _ => Option DBJob
  | tryClaim _ _ _ => Option (Int × Time)
  | claimRefusal _ => Option (Option String × Bool)
  | listExpiredLeases => List String

/-- The rows of a statement, or the error of the database. -/
abbrev Response (s : Stmt) := Except SqlError s.Rows

/-- The columns that `GetJob` selects. -/
def selectJob (id : String) (row : Row) : DBJob where
  id := id
  image := row.image
  command := row.command
  status := row.status
  createdAt := row.createdAt
  retryCount := row.retryCount

/-- The columns that `TryClaim` returns; `lease_expires_at` was set by the same statement. -/
def returning (row : Row) : Int × Time :=
  (row.leaseToken, row.leaseExpiresAt.getD 0)

/-- The columns of the second query of `TryClaim`: `manifest_root_cid` and `lease_valid`. -/
def refusalColumns (now : Time) (row : Row) : Option String × Bool :=
  (row.manifestRootCID,
    decide (row.leaseExpiresAt ≠ none ∧ ∃ expiry ∈ row.leaseExpiresAt, now ≤ expiry))

/-- The effect of a statement evaluated at time `now`. -/
def exec : (s : Stmt) → Time → DemandJobs → s.Response × DemandJobs
  | createJob job, _, db =>
      let answer := insertNew db job.id (Row.fresh job)
      (.ok answer.1, answer.2)
  | getJob id, _, db => (.ok ((db.lookup id).map (selectJob id)), db)
  | attachManifest id m, _, db =>
      let answer := update db id (fun _ => True) fun row => .ok (row.attach m)
      (answer.1.map affected, answer.2)
  | tryClaim id agentID ttl, now, db =>
      let answer := update db id (Row.Claimable now) (Row.claim agentID ttl now)
      (answer.1.map (Option.map returning), answer.2)
  | claimRefusal id, now, db => (.ok ((db.lookup id).map (refusalColumns now)), db)
  | heartbeat id agentID token ttl, now, db =>
      let answer := update db id (Row.HeldBy agentID token) fun row => .ok (row.renew ttl now)
      (answer.1.map affected, answer.2)
  | finish id agentID token outcome, _, db =>
      let answer := update db id (Row.Finishable agentID token) fun row => .ok (row.finish outcome)
      (answer.1.map affected, answer.2)
  | listExpiredLeases, now, db =>
      (.ok ((db.entries.filter fun entry => Row.Expired now entry.2).map Sigma.fst), db)
  | setStatusQueued id, now, db =>
      let answer := update db id (Row.Expired now) Row.requeue
      (answer.1.map affected, answer.2)

/-- The job that a statement is about, if it can write. -/
def target : Stmt → Option String
  | createJob job => some job.id
  | attachManifest id _ | tryClaim id _ _ | heartbeat id _ _ _ | finish id _ _ _
  | setStatusQueued id => some id
  | getJob _ | claimRefusal _ | listExpiredLeases => none

/-- The agent that a statement names. -/
def agent : Stmt → Option String
  | tryClaim _ agentID _ | heartbeat _ agentID _ _ | finish _ agentID _ _ => some agentID
  | createJob _ | getJob _ | attachManifest _ _ | claimRefusal _ | listExpiredLeases
  | setStatusQueued _ => none

/-- Whether the response says that a row was written. -/
def wrote : (s : Stmt) → s.Rows → Prop
  | createJob _, n | attachManifest _ _, n | heartbeat _ _ _ _, n | finish _ _ _ _, n
  | setStatusQueued _, n => n ≠ (0 : ℕ)
  | tryClaim _ _ _, returned => returned ≠ (none : Option (Int × Time))
  | getJob _, _ | claimRefusal _, _ | listExpiredLeases, _ => False

instance : (s : Stmt) → (rows : s.Rows) → Decidable (s.wrote rows)
  | createJob _, n | attachManifest _ _, n | heartbeat _ _ _ _, n | finish _ _ _ _, n
  | setStatusQueued _, n => inferInstanceAs (Decidable (n ≠ (0 : ℕ)))
  | tryClaim _ _ _, returned =>
      inferInstanceAs (Decidable (returned ≠ (none : Option (Int × Time))))
  | getJob _, _ | claimRefusal _, _ | listExpiredLeases, _ => isFalse id

end Stmt

/-- What a statement does not decide itself: its `now()`, and whether the database fails. -/
structure Input where
  now : Time
  fault : Option SqlError := none

/-- A statement under an input. A failing database reports its error and writes nothing. -/
def effect : Effect Stmt Stmt.Response Input DemandJobs := fun s input db =>
  match input.fault with
  | some e => (.error e, db)
  | none => s.exec input.now db

/-- One executed statement with its response. -/
abbrev Event := Interaction.Event Stmt Stmt.Response Input

/-- One statement executed on the table. -/
abbrev Step (db : DemandJobs) (e : Event) (db' : DemandJobs) : Prop :=
  Answers effect db e db'

/-- Every statement can be executed, under every input. -/
theorem effect_step (s : Stmt) (input : Input) (db : DemandJobs) :
    Step db ⟨s, input, (effect s input db).1⟩ (effect s input db).2 := rfl

/-- The event wrote the row of job `id`. -/
def Event.Writes (e : Event) (id : String) : Prop :=
  e.call.target = some id ∧ ∃ rows, e.response = .ok rows ∧ e.call.wrote rows

/-- Everything a statement can do to the row of job `id`. -/
inductive RowStep (id : String) : Event → Option Row → Option Row → Prop where
  | idle (e : Event) (row : Option Row) : ¬ Event.Writes e id → RowStep id e row row
  | create (job : DBJob) (input : Input) : job.id = id →
      RowStep id ⟨.createJob job, input, .ok (1 : ℕ)⟩ none (some (Row.fresh job))
  | attach (m : Manifest) (input : Input) (row : Row) :
      RowStep id ⟨.attachManifest id m, input, .ok (1 : ℕ)⟩ (some row) (some (row.attach m))
  | claim (agentID : String) (ttl : Duration) (input : Input) (row : Row) :
      row.Claimable input.now → row.leaseToken + 1 < 2 ^ 63 →
      RowStep id
        ⟨.tryClaim id agentID ttl, input,
          .ok (some (row.leaseToken + 1, input.now + seconds ttl * second))⟩
        (some row)
        (some { row with
          leaseAgent := some agentID
          leaseExpiresAt := some (input.now + seconds ttl * second)
          leaseToken := row.leaseToken + 1
          status := .assigned })
  | renew (agentID : String) (token : UInt64) (ttl : Duration) (input : Input) (row : Row) :
      row.HeldBy agentID token →
      RowStep id ⟨.heartbeat id agentID token ttl, input, .ok (1 : ℕ)⟩ (some row)
        (some (row.renew ttl input.now))
  | finish (agentID : String) (token : UInt64) (outcome : Outcome) (input : Input) (row : Row) :
      row.Finishable agentID token →
      RowStep id ⟨.finish id agentID token outcome, input, .ok (1 : ℕ)⟩ (some row)
        (some (row.finish outcome))
  | requeue (input : Input) (row : Row) :
      row.Expired input.now → row.retryCount + 1 < 2 ^ 31 →
      RowStep id ⟨.setStatusQueued id, input, .ok (1 : ℕ)⟩ (some row)
        (some { row with
          status := .queued
          leaseAgent := none
          leaseExpiresAt := none
          retryCount := row.retryCount + 1 })

/-- A statement about another job, or one that wrote nothing, leaves the row alone. -/
theorem RowStep.of_eq {id : String} {e : Event} {row row' : Option Row} (h : row' = row)
    (hidle : ¬ Event.Writes e id) : RowStep id e row row' :=
  h ▸ .idle e row hidle

/-- A statement about another job leaves the row alone. -/
theorem RowStep.eq_of_target_ne {id : String} {e : Event} {row row' : Option Row}
    (h : RowStep id e row row') (htarget : e.call.target ≠ some id) : row' = row := by
  cases h with
  | idle => rfl
  | create job input hid => exact absurd (congrArg some hid) htarget
  | attach | claim | renew | finish | requeue => exact absurd rfl htarget

/-- An `UPDATE` acts on the row of job `id` if the row is its target and passes its guard, and
leaves it alone otherwise. -/
theorem RowStep.of_update {id k : String} {e : Event} {db : DemandJobs} {guard : Row → Prop}
    [DecidablePred guard] {set : Row → Except SqlError Row} (htarget : e.call.target = some k)
    (hwrote : ∀ rows, e.response = .ok rows → e.call.wrote rows →
      ∃ r, (update db k guard set).1 = .ok (some r))
    (hmatch : ∀ row row', id = k → guard row → set row = .ok row' →
      (update db k guard set).1 = .ok (some row') → RowStep id e (some row) (some row')) :
    RowStep id e (db.lookup id) ((update db k guard set).2.lookup id) := by
  rcases update_lookup db k guard set id with
    ⟨hid, row, row', hrow, hguard, hset, hresult, hrow'⟩ | ⟨hsame, hresult⟩
  · rw [hrow, hrow']
    exact hmatch row row' hid hguard hset hresult
  · -- no row of this job was written, so the response cannot report one
    refine .of_eq hsame ?_
    rintro ⟨hid, rows, hresponse, hrows⟩
    obtain ⟨r, hr⟩ := hwrote rows hresponse hrows
    rw [htarget] at hid
    exact hresult (Option.some.inj hid).symm r hr

/-- Every statement acts on the row of every job as `RowStep` allows. -/
theorem row_step {db db' : DemandJobs} {e : Event} (h : Step db e db') (id : String) :
    RowStep id e (db.lookup id) (db'.lookup id) := by
  obtain ⟨call, input, response⟩ := e
  unfold Step Answers effect at h
  cases hfault : input.fault with
  | some error =>
      simp only [hfault, Prod.mk.injEq] at h
      obtain ⟨rfl, rfl⟩ := h
      exact .idle _ _ (by simp [Event.Writes])
  | none =>
      simp only [hfault] at h
      cases call with
      | createJob job =>
          simp only [Stmt.exec, Prod.mk.injEq] at h
          obtain ⟨rfl, rfl⟩ := h
          by_cases hid : job.id = id
          · subst hid
            cases hrow : db.lookup job.id with
            | none =>
                simpa [insertNew, hrow] using @RowStep.create job.id job input rfl
            | some row =>
                refine .of_eq (by simp [insertNew, hrow]) ?_
                simp [Event.Writes, Stmt.wrote, insertNew, hrow]
          · refine .of_eq ?_ (by simp [Event.Writes, Stmt.target, hid])
            rw [lookup_insert_new, if_neg (Ne.symm hid)]
      | getJob | claimRefusal | listExpiredLeases =>
          simp only [Stmt.exec, Prod.mk.injEq] at h
          obtain ⟨rfl, rfl⟩ := h
          exact .idle _ _ (by simp [Event.Writes, Stmt.target])
      | attachManifest k m =>
          simp only [Stmt.exec, Prod.mk.injEq] at h
          obtain ⟨rfl, rfl⟩ := h
          refine .of_update rfl (fun _ => exists_row_of_affected) ?_
          rintro row row' rfl - hset hresult
          cases hset
          rw [hresult]
          exact .attach m input row
      | tryClaim k agentID ttl =>
          simp only [Stmt.exec, Prod.mk.injEq] at h
          obtain ⟨rfl, rfl⟩ := h
          refine .of_update rfl (fun _ => exists_row_of_returning) ?_
          rintro row row' rfl hguard hset hresult
          obtain ⟨hlt, rfl⟩ := Row.claim_ok hset
          rw [hresult]
          exact .claim agentID ttl input row hguard hlt
      | heartbeat k agentID token ttl =>
          simp only [Stmt.exec, Prod.mk.injEq] at h
          obtain ⟨rfl, rfl⟩ := h
          refine .of_update rfl (fun _ => exists_row_of_affected) ?_
          rintro row row' rfl hguard hset hresult
          cases hset
          rw [hresult]
          exact .renew agentID token ttl input row hguard
      | finish k agentID token outcome =>
          simp only [Stmt.exec, Prod.mk.injEq] at h
          obtain ⟨rfl, rfl⟩ := h
          refine .of_update rfl (fun _ => exists_row_of_affected) ?_
          rintro row row' rfl hguard hset hresult
          cases hset
          rw [hresult]
          exact .finish agentID token outcome input row hguard
      | setStatusQueued k =>
          simp only [Stmt.exec, Prod.mk.injEq] at h
          obtain ⟨rfl, rfl⟩ := h
          refine .of_update rfl (fun _ => exists_row_of_affected) ?_
          rintro row row' rfl hguard hset hresult
          obtain ⟨hlt, rfl⟩ := Row.requeue_ok hset
          rw [hresult]
          exact .requeue input row hguard hlt

end MutualCloud.Store
