import MutualCloud.Store.Runs

/-!
# A lease excludes everybody but its holder

`lease_exclusive` is the exclusivity of a lease over whole runs: from the claim on, as long as
the row stays leased under the same agent and token, only that agent's heartbeat and finish and
a requeue after the expiry can change what the lease protects. The argument is local to one
row (`RowStep.lease_change`); the invariant that carries it is `Row.Sound`, by which a row with
an agent is not queued and so cannot be claimed again.
-/

namespace MutualCloud.Store

open Go KeyedTable Interaction Labelled

/-- The columns that a lease protects. -/
def Row.leaseColumns (row : Row) :
    JobStatus × Option String × Int × Option Time × Option String × Option Strings ×
      Option Metrics :=
  (row.status, row.leaseAgent, row.leaseToken, row.leaseExpiresAt, row.resultRootCID,
    row.artifacts, row.metrics)

/-- The protected columns of job `id`, if it has a row. -/
def leaseColumns (id : String) (db : DemandJobs) :=
  (db.lookup id).map Row.leaseColumns

/-- The row of job `id` is leased to the agent under the token. -/
def LeasedTo (id agentID : String) (token : Int) (db : DemandJobs) : Prop :=
  ∃ row, db.lookup id = some row ∧ row.leaseAgent = some agentID ∧ row.leaseToken = token

/-- What can change the protected columns of a leased row. -/
theorem RowStep.lease_change {id agentID : String} {e : Event} {row : Row} {new : Option Row}
    (h : RowStep id e (some row) new) (hs : row.Sound) (ha : row.leaseAgent = some agentID)
    (hne : new.map Row.leaseColumns ≠ some row.leaseColumns) :
    (∃ token ttl, e.call = .heartbeat id agentID token ttl ∧ row.leaseToken = int64 token) ∨
    (∃ token outcome, e.call = .finish id agentID token outcome ∧
      row.leaseToken ≤ int64 token) ∨
    (e.call = .setStatusQueued id ∧ Before row.leaseExpiresAt e.input.now) := by
  cases h with
  | idle => exact absurd rfl hne
  | attach => exact absurd rfl hne
  | claim _ _ _ _ hguard _ =>
      rw [hs.agent_none_of_claimable hguard] at ha
      cases ha
  | renew other token ttl _ _ hheld =>
      obtain rfl : other = agentID := Option.some.inj (hheld.1.symm.trans ha)
      exact .inl ⟨token, ttl, rfl, hheld.2⟩
  | finish other token outcome _ _ hguard =>
      rcases hguard.1 with hother | hnone
      · obtain rfl : other = agentID := Option.some.inj (hother.symm.trans ha)
        exact .inr (.inl ⟨token, outcome, rfl, hguard.2⟩)
      · rw [hnone] at ha
        cases ha
  | requeue _ _ hguard _ => exact .inr (.inr ⟨rfl, hguard.2.2⟩)

/-- A claim leaves the row leased under the agent and the token it returned. -/
theorem leased_of_claim {db db' : DemandJobs} {id agentID : String} {ttl : Duration}
    {input : Input} {token : Int} {expiry : Time}
    (h : Step db ⟨.tryClaim id agentID ttl, input, .ok (some (token, expiry))⟩ db') :
    LeasedTo id agentID token db' := by
  have hrow := row_step h id
  generalize db.lookup id = old at hrow
  generalize hnew : db'.lookup id = new at hrow
  cases hrow with
  | idle _ _ hidle =>
      exact absurd ⟨rfl, some (token, expiry), rfl, by simp [Stmt.wrote]⟩ hidle
  | claim => exact ⟨_, hnew, rfl, rfl⟩

/-- A leased row is not claimable. -/
theorem claim_refused_of_leased {db db' : DemandJobs} {id agentID other : String} {ttl : Duration}
    {input : Input} {token : Int} {columns : Option (Int × Time)} (hsound : Sound db)
    (hleased : LeasedTo id agentID token db)
    (h : Step db ⟨.tryClaim id other ttl, input, .ok columns⟩ db') : columns = none := by
  obtain ⟨row, hrow, hagent, _⟩ := hleased
  have hstep := row_step h id
  rw [hrow] at hstep
  generalize db'.lookup id = new at hstep
  cases hstep with
  | idle _ _ hidle =>
      by_contra hcolumns
      exact hidle ⟨rfl, columns, rfl, hcolumns⟩
  | claim _ _ _ _ hguard _ =>
      rw [(hsound id row hrow).agent_none_of_claimable hguard] at hagent
      cases hagent

/-- The holder's heartbeat finds its row. -/
theorem heartbeat_of_leased {db : DemandJobs} {id agentID : String} {token : Int}
    (hsound : Sound db) (hleased : LeasedTo id agentID token db) (ttl : Duration) (now : Time) :
    ∃ db', Step db ⟨.heartbeat id agentID (uint64 token) ttl, { now := now }, .ok (1 : ℕ)⟩ db' := by
  obtain ⟨row, hrow, hagent, rfl⟩ := hleased
  have hs := hsound id row hrow
  have hheld : row.HeldBy agentID (uint64 row.leaseToken) :=
    ⟨hagent, (int64_uint64 hs.token_nonneg hs.token_lt).symm⟩
  refine ⟨db.insert id (row.renew ttl now), ?_⟩
  simp only [Step, Answers, effect, Stmt.exec, update_of_match hrow hheld]
  rfl

/-- What can change the protected columns of a job that is leased to an agent under a token, in
the arguments of the Go methods. -/
theorem lease_changed {db db' : DemandJobs} {e : Event} {id a : String} {t : Int}
    (hsound : Sound db) (hleased : LeasedTo id a t db) (hstep : Step db e db')
    (hne : leaseColumns id db' ≠ leaseColumns id db) :
    (∃ ttl, e.call = .heartbeat id a (uint64 t) ttl) ∨
    (∃ u outcome, e.call = .finish id a u outcome ∧ uint64 t ≤ u) ∨
    (e.call = .setStatusQueued id ∧
      ∃ row, db.lookup id = some row ∧ Before row.leaseExpiresAt e.input.now) := by
  obtain ⟨row, hrow, hagent, rfl⟩ := hleased
  have hs := hsound id row hrow
  have hnonneg := hs.token_nonneg
  have hrs := row_step hstep id
  rw [hrow] at hrs
  simp only [leaseColumns, hrow, Option.map_some] at hne
  rcases hrs.lease_change hs hagent hne with ⟨token, ttl, hcall, htoken⟩ |
    ⟨token, outcome, hcall, htoken⟩ | ⟨hcall, hbefore⟩
  · refine .inl ⟨ttl, ?_⟩
    have htok : uint64 row.leaseToken = token := by
      apply int64_injective
      rw [int64_uint64 hnonneg hs.token_lt, htoken]
    rw [hcall, htok]
  · refine .inr (.inl ⟨token, outcome, hcall, ?_⟩)
    -- the presented token is not negative as a parameter, so its bits are its value
    have hvalue := (toNat_of_le_int64 hnonneg htoken).2
    rw [UInt64.le_iff_toNat_le, toNat_uint64 hnonneg hs.token_lt]
    omega
  · exact .inr (.inr ⟨hcall, row, hrow, hbefore⟩)

/-- Exclusivity of a lease. The agent `a` was granted the token `t`, and since then the row has
stayed leased under the two. Then only `a`'s heartbeat with `t`, `a`'s finish with a token not
below `t`, and a requeue after the expiry can change the protected columns; no call in another
agent's name does; no claim succeeds; and `a`'s heartbeat with `t` succeeds. -/
theorem lease_exclusive {before held : List Event} {db₀ db₁ db : DemandJobs} {id a : String}
    {ttl : Duration} {input : Input} {t : Int} {expiry : Time} (hrun : Run before db₀)
    (hclaim : Step db₀ ⟨.tryClaim id a ttl, input, .ok (some (t, expiry))⟩ db₁)
    (hheld : Execution (fun s e s' => Step s e s' ∧ LeasedTo id a t s') db₁ held db) :
    (∀ e db', Step db e db' → leaseColumns id db' ≠ leaseColumns id db →
      (∃ ttl, e.call = .heartbeat id a (uint64 t) ttl) ∨
      (∃ u outcome, e.call = .finish id a u outcome ∧ uint64 t ≤ u) ∨
      (e.call = .setStatusQueued id ∧
        ∃ row, db.lookup id = some row ∧ Before row.leaseExpiresAt e.input.now)) ∧
    (∀ e db' b, Step db e db' → e.call.agent = some b → b ≠ a →
      leaseColumns id db' = leaseColumns id db) ∧
    (∀ b ttl input columns db',
      Step db ⟨.tryClaim id b ttl, input, .ok columns⟩ db' → columns = none) ∧
    (∀ ttl now, ∃ db',
      Step db ⟨.heartbeat id a (uint64 t) ttl, { now := now }, .ok (1 : ℕ)⟩ db') := by
  have hsound : Sound db :=
    (hheld.invariant (I := Sound) (hrun.sound.step hclaim)
      fun _ _ _ hs hstep => hs.step hstep.1)
  have hleased : LeasedTo id a t db :=
    hheld.invariant (leased_of_claim hclaim) fun _ _ _ _ hstep => hstep.2
  refine ⟨fun e db' hstep hne => lease_changed hsound hleased hstep hne, ?_, ?_, ?_⟩
  · intro e db' b hstep hagent hb
    by_contra hne
    rcases lease_changed hsound hleased hstep hne with
      ⟨_, hcall⟩ | ⟨_, _, hcall, _⟩ | ⟨hcall, _⟩
    all_goals
      rw [hcall] at hagent
      simp only [Stmt.agent, Option.some.injEq, reduceCtorEq] at hagent
    · exact hb hagent.symm
    · exact hb hagent.symm
  · intro b ttl input columns db' hstep
    exact claim_refused_of_leased hsound hleased hstep
  · exact heartbeat_of_leased hsound hleased

/-- The agent that claimed the sample job can extend its lease. -/
theorem lease_exclusive_claimed :
    ∃ db', Step (play Sample.claimed).2
      ⟨.heartbeat "job" "a" (uint64 1) second, { now := 3 }, .ok (1 : ℕ)⟩ db' := by
  have hclaim : Step (play [(.createJob Sample.job, { now := 1 })]).2
      ⟨.tryClaim "job" "a" (15 * second), { now := 2 }, .ok (some (1, 15000000002))⟩
      (play Sample.claimed).2 := rfl
  exact (lease_exclusive (play_run _) hclaim .refl).2.2.2 second 3

end MutualCloud.Store
