import MutualCloud.Store.Statements

/-!
# Runs of the store and the shape of its rows

A run is a history of executed statements from the empty table, by any callers, in any order,
each with its own clock reading. `Row.Sound` holds of every row of every run, whatever the
callers pass. When every created job is queued, as every caller of `CreateJob` has it, the
stronger `Row.WellFormed` holds: the status, the agent and the expiry of a row tell the same
story, and `status_life_cycle` lists the only ways in which a status changes.
-/

namespace MutualCloud.Store

open Go KeyedTable Interaction Labelled

/-- The statements of `history`, executed on the empty table, lead to `db`. -/
abbrev Run (history : List Event) (db : DemandJobs) : Prop :=
  Execution Step ∅ history db

/-- The statements of a script, executed one after another on the empty table. -/
def play (script : List (Stmt × Input)) : List Event × DemandJobs :=
  replay effect script ∅

theorem play_run (script : List (Stmt × Input)) : Run (play script).1 (play script).2 :=
  replay_execution effect script ∅

/-- The tables that the store can reach. -/
def Reachable (db : DemandJobs) : Prop :=
  ∃ history, Run history db

/-- What acts by statements or not at all stays among the reachable tables. -/
theorem Reachable.of_step {db db' : DemandJobs} (h : Reachable db)
    (hstep : db' = db ∨ ∃ e, Step db e db') : Reachable db' := by
  obtain ⟨history, hrun⟩ := h
  rcases hstep with rfl | ⟨e, he⟩
  · exact ⟨history, hrun⟩
  · exact ⟨history ++ [e], hrun.snoc he⟩

/-- Every job is created with status `queued`. -/
def CreatesQueued (history : List Event) : Prop :=
  ∀ e ∈ history, ∀ job, e.call = .createJob job → job.status = .queued

namespace Row

/-- What holds of a row whatever the callers pass. -/
structure Sound (row : Row) : Prop where
  token_nonneg : 0 ≤ row.leaseToken
  token_lt : row.leaseToken < 2 ^ 63
  retries_nonneg : 0 ≤ row.retryCount
  active : row.leaseAgent ≠ none → row.status.Active
  expiry : row.leaseAgent ≠ none ↔ row.leaseExpiresAt ≠ none

/-- What holds of a row when jobs are created queued. -/
structure WellFormed (row : Row) : Prop extends Sound row where
  known : ∀ text, row.status ≠ .other text
  leased : row.status.Active → row.leaseAgent ≠ none

theorem Sound.agent_none_of_not_active {row : Row} (h : row.Sound) (hs : ¬ row.status.Active) :
    row.leaseAgent = none := by
  by_contra hagent
  exact hs (h.active hagent)

/-- A claimable row carries no lease: it is queued, and a leased row is not. -/
theorem Sound.agent_none_of_claimable {row : Row} {now : Time} (h : row.Sound)
    (hc : row.Claimable now) : row.leaseAgent = none := by
  apply h.agent_none_of_not_active
  rw [hc.1]
  decide

/-- A queued row is claimable at any time, as it carries no lease. -/
theorem Sound.claimable_of_queued {row : Row} (h : row.Sound) (hq : row.status = .queued)
    (now : Time) : row.Claimable now := by
  have hagent : row.leaseAgent = none := h.agent_none_of_not_active (by rw [hq]; decide)
  have hexpiry : row.leaseExpiresAt = none := by
    by_contra hsome
    exact h.expiry.mpr hsome hagent
  exact ⟨hq, .inl hexpiry⟩

/-- A row that `SetStatusQueued` accepts is leased. -/
theorem Sound.agent_of_expired {row : Row} {now : Time} (h : row.Sound)
    (he : row.Expired now) : ∃ agentID, row.leaseAgent = some agentID :=
  Option.ne_none_iff_exists'.mp (h.expiry.mpr he.2.1)

theorem sound_fresh (job : DBJob) : (fresh job).Sound where
  token_nonneg := le_refl _
  token_lt := by simp [fresh]
  retries_nonneg := le_refl _
  active := fun h => absurd rfl h
  expiry := by simp [fresh]

theorem Sound.attach {row : Row} (h : row.Sound) (m : Manifest) : (row.attach m).Sound :=
  ⟨h.token_nonneg, h.token_lt, h.retries_nonneg, h.active, h.expiry⟩

theorem Sound.finish {row : Row} (h : row.Sound) (outcome : Outcome) : (row.finish outcome).Sound :=
  ⟨h.token_nonneg, h.token_lt, h.retries_nonneg, fun ha => absurd rfl ha,
    by simp [Row.finish]⟩

/-- A heartbeat presents an agent, so it finds a leased row and leaves it leased. -/
theorem Sound.renew {row : Row} {agentID : String} {token : UInt64} (h : row.Sound)
    (hheld : row.HeldBy agentID token) (ttl : Duration) (now : Time) :
    (row.renew ttl now).Sound where
  token_nonneg := h.token_nonneg
  token_lt := h.token_lt
  retries_nonneg := h.retries_nonneg
  active := fun _ => .inr rfl
  expiry := by simp [Row.renew, hheld.1]

end Row

/-- Every row of the table is sound. -/
def Sound (db : DemandJobs) : Prop :=
  ∀ id row, db.lookup id = some row → row.Sound

/-- One step on one row keeps it sound. -/
theorem RowStep.sound {id : String} {e : Event} {old new : Option Row}
    (h : RowStep id e old new) (hold : ∀ row, old = some row → row.Sound) :
    ∀ row, new = some row → row.Sound := by
  intro row' hnew
  cases h with
  | idle => exact hold row' hnew
  | create job =>
      cases hnew
      exact Row.sound_fresh job
  | attach m _ row =>
      cases hnew
      exact (hold row rfl).attach m
  | claim agentID ttl input row _ hlt =>
      cases hnew
      -- the statement fails where the next token would leave the type of its column
      have hs := hold row rfl
      have hnonneg := hs.token_nonneg
      exact ⟨by show 0 ≤ row.leaseToken + 1; omega, hlt, hs.retries_nonneg, fun _ => .inl rfl,
        by simp⟩
  | renew agentID token ttl input row hheld =>
      cases hnew
      exact (hold row rfl).renew hheld ttl input.now
  | finish agentID token outcome input row _ =>
      cases hnew
      exact (hold row rfl).finish outcome
  | requeue input row _ _ =>
      cases hnew
      have hs := hold row rfl
      have hnonneg := hs.retries_nonneg
      exact ⟨hs.token_nonneg, hs.token_lt, by show 0 ≤ row.retryCount + 1; omega,
        fun ha => absurd rfl ha, by simp⟩

/-- One statement keeps every row sound. -/
theorem Sound.step {db db' : DemandJobs} {e : Event} (h : Sound db) (hstep : Step db e db') :
    Sound db' := by
  intro id row hrow
  exact (row_step hstep id).sound (h id) row hrow

theorem sound_empty : Sound ∅ := by
  intro id row hrow
  simp at hrow

/-- Every row of every run is sound. -/
theorem Run.sound {history : List Event} {db : DemandJobs} (h : Run history db) : Sound db :=
  h.invariant sound_empty fun _ _ _ hs hstep => hs.step hstep

/-- One step on one row keeps it well formed, as long as jobs are created queued. -/
theorem RowStep.well_formed {id : String} {e : Event} {old new : Option Row}
    (h : RowStep id e old new) (hcreate : ∀ job, e.call = .createJob job → job.status = .queued)
    (hold : ∀ row, old = some row → row.WellFormed) :
    ∀ row, new = some row → row.WellFormed := by
  intro row' hnew
  have hsound := h.sound (fun row hrow => (hold row hrow).toSound) row' hnew
  cases h with
  | idle => exact hold row' hnew
  | create job _ _ =>
      cases hnew
      have hq : (Row.fresh job).status = .queued := hcreate job rfl
      exact ⟨hsound, by simp [hq], by simp [hq, JobStatus.Active]⟩
  | attach m _ row =>
      cases hnew
      have hw := hold row rfl
      exact ⟨hsound, hw.known, hw.leased⟩
  | claim agentID ttl input row _ _ =>
      cases hnew
      exact ⟨hsound, by simp, by simp⟩
  | renew agentID token ttl input row hheld =>
      -- the guard does not test the status, but it names the agent that the row then has
      cases hnew
      exact ⟨hsound, by simp [Row.renew], by simp [Row.renew, hheld.1]⟩
  | finish agentID token outcome input row _ =>
      cases hnew
      have hended : (row.finish outcome).status.Terminal := outcome.status_terminal
      refine ⟨hsound, ?_, fun hactive => absurd hended hactive.not_terminal⟩
      intro text hother
      rw [hother] at hended
      simp [JobStatus.Terminal] at hended
  | requeue input row _ _ =>
      cases hnew
      exact ⟨hsound, by simp, by simp [JobStatus.Active]⟩

/-- Every row of every run that creates jobs queued is well formed. -/
theorem Run.well_formed {history : List Event} {db : DemandJobs} (h : Run history db)
    (hcreate : CreatesQueued history) {id : String} {row : Row} (hrow : db.lookup id = some row) :
    row.WellFormed := by
  induction h generalizing id row with
  | refl => simp at hrow
  | snoc _ hstep ih =>
      refine (row_step hstep id).well_formed (fun job hjob => hcreate _ (by simp) job hjob) ?_ row
        hrow
      intro old hold
      exact ih (fun e he => hcreate e (by simp [he])) hold

/-- The ways in which one statement changes the status of a row. -/
theorem RowStep.status_change {id : String} {e : Event} {row row' : Row}
    (h : RowStep id e (some row) (some row')) (hs : row.Sound) (hne : row'.status ≠ row.status) :
    (row.status = .queued ∧ row'.status = .assigned ∧
      ∃ agentID ttl, e.call = .tryClaim id agentID ttl) ∨
    (row.status.Active ∧ row'.status = .running ∧
      ∃ agentID token ttl, e.call = .heartbeat id agentID token ttl) ∨
    (row.status.Active ∧ row'.status = .queued ∧ e.call = .setStatusQueued id) ∨
    (row'.status.Terminal ∧
      ∃ agentID token outcome, e.call = .finish id agentID token outcome) := by
  cases h with
  | idle => exact absurd rfl hne
  | attach => exact absurd rfl hne
  | claim agentID ttl input _ hguard _ => exact .inl ⟨hguard.1, rfl, agentID, ttl, rfl⟩
  | renew agentID token ttl input _ hheld =>
      exact .inr (.inl ⟨hs.active (by simp [hheld.1]), rfl, agentID, token, ttl, rfl⟩)
  | finish agentID token outcome input _ _ =>
      exact .inr (.inr (.inr ⟨outcome.status_terminal, agentID, token, outcome, rfl⟩))
  | requeue input _ hguard _ => exact .inr (.inr (.inl ⟨hguard.1, rfl, rfl⟩))

/-- Row well-formedness and the life cycle of a job. -/
theorem status_life_cycle {history : List Event} {db : DemandJobs} (hrun : Run history db)
    (hcreate : CreatesQueued history) {id : String} {row : Row} (hrow : db.lookup id = some row) :
    (∀ text, row.status ≠ .other text) ∧
    (row.status.Active ↔ row.leaseAgent ≠ none) ∧
    (row.leaseAgent ≠ none ↔ row.leaseExpiresAt ≠ none) ∧
    ∀ e db' row', Step db e db' → db'.lookup id = some row' →
      (row'.status ≠ row.status →
        (row.status = .queued ∧ row'.status = .assigned ∧
          ∃ agentID ttl, e.call = .tryClaim id agentID ttl) ∨
        (row.status.Active ∧ row'.status = .running ∧
          ∃ agentID token ttl, e.call = .heartbeat id agentID token ttl) ∨
        (row.status.Active ∧ row'.status = .queued ∧ e.call = .setStatusQueued id) ∨
        (row'.status.Terminal ∧
          ∃ agentID token outcome, e.call = .finish id agentID token outcome)) ∧
      (row.status.Terminal → row'.status.Terminal) := by
  have hw := hrun.well_formed hcreate hrow
  refine ⟨hw.known, ⟨hw.leased, hw.active⟩, hw.expiry, ?_⟩
  intro e db' row' hstep hrow'
  have hrs := row_step hstep id
  rw [hrow, hrow'] at hrs
  refine ⟨hrs.status_change hw.toSound, ?_⟩
  intro hterminal
  by_cases hne : row'.status = row.status
  · exact hne ▸ hterminal
  · -- three of the four changes start from a status that is not terminal
    rcases hrs.status_change hw.toSound hne with ⟨hq, -⟩ | ⟨ha, -⟩ | ⟨ha, -⟩ | ⟨ht, -⟩
    · exact absurd hq hterminal.ne_queued
    · exact absurd hterminal ha.not_terminal
    · exact absurd hterminal ha.not_terminal
    · exact ht

namespace Sample

/-- A queued job, used in the concrete runs below. -/
def job : DBJob := ⟨"job", "alpine", some ["echo"], .queued, 1, 0⟩

/-- The job is created and claimed by the agent `a` for 15 seconds. -/
def claimed : List (Stmt × Input) :=
  [(.createJob job, { now := 1 }), (.tryClaim "job" "a" (15 * second), { now := 2 })]

/-- The row after `claimed`. -/
def claimedRow : Row :=
  { Row.fresh job with
    leaseAgent := some "a", leaseExpiresAt := some 15000000002, leaseToken := 1,
    status := .assigned }

theorem claimed_row : (play claimed).2.lookup "job" = some claimedRow := by decide

theorem claimed_creates : CreatesQueued (play claimed).1 := by
  intro e he job hjob
  simp only [play, claimed, replay, List.mem_cons, List.not_mem_nil, or_false] at he
  rcases he with rfl | rfl
  · cases hjob
    rfl
  · cases hjob

end Sample

/-- The row of a claimed job is active and names its agent. -/
theorem status_life_cycle_claimed :
    (play Sample.claimed).2.lookup "job" = some Sample.claimedRow ∧
      (Sample.claimedRow.status.Active ↔ Sample.claimedRow.leaseAgent ≠ none) := by
  exact ⟨Sample.claimed_row, (status_life_cycle (play_run Sample.claimed) Sample.claimed_creates
    Sample.claimed_row).2.1⟩

end MutualCloud.Store
