import MutualCloud.Store.Fencing

/-!
# What happens to the result of a finished job

`Finish` leaves a row without an agent and does not look at the status, so the row it leaves
behind still passes the guard of another `Finish` whose token is not below `lease_token`. Every
other statement leaves the result alone (`RowStep.result_kept`). Along every execution from a
terminal row, therefore, the result stays as recorded exactly when every such later `Finish`
reports the same result again (`result_immutable_iff`); in particular an agent that repeats its own
report changes nothing (`finish_retry_safe`).
-/

namespace MutualCloud.Store

open Go KeyedTable Interaction Labelled

/-- The columns that record how a job ended. -/
structure Result where
  status : JobStatus
  rootCID : Option String
  artifacts : Option Strings
  metrics : Option Metrics
  deriving DecidableEq

/-- The recorded result of a row. -/
def Row.result (row : Row) : Result :=
  ⟨row.status, row.resultRootCID, row.artifacts, row.metrics⟩

/-- The result that a report is recorded as. -/
def Outcome.result (outcome : Outcome) : Result :=
  ⟨outcome.status, some outcome.resultCID, some outcome.artifacts, some outcome.metrics⟩

/-- The event is no `Finish` on job `id`, or its statement fails, or it presents a token below
`token`, or it reports `result`. -/
def Event.Repeats (e : Event) (id : String) (token : Int) (result : Result) : Prop :=
  ∀ agentID u outcome, e.call = .finish id agentID u outcome → e.input.fault = none →
    token ≤ int64 u → outcome.result = result

/-- A row whose job has ended: its result, its token, and no lease. -/
structure Row.Ended (row : Row) (token : Int) : Prop where
  sound : row.Sound
  terminal : row.status.Terminal
  token_eq : row.leaseToken = token

theorem Row.Ended.agent_none {row : Row} {token : Int} (h : row.Ended token) :
    row.leaseAgent = none :=
  h.sound.agent_none_of_not_active h.terminal.not_active

theorem Row.Ended.finish {row : Row} {token : Int} (h : row.Ended token) (outcome : Outcome) :
    (row.finish outcome).Ended token :=
  ⟨h.sound.finish outcome, outcome.status_terminal, h.token_eq⟩

/-- A statement that reports an affected row did not fail. -/
theorem fault_none_of_ok {db db' : DemandJobs} {e : Event} (h : Step db e db')
    {rows : e.call.Rows} (hok : e.response = .ok rows) : e.input.fault = none := by
  cases hfault : e.input.fault with
  | none => rfl
  | some error =>
      simp only [Step, Answers, effect, hfault, Prod.mk.injEq] at h
      rw [hok] at h
      cases h.1

/-- On a row that has ended only `AttachManifest` and `Finish` act. -/
theorem RowStep.of_ended {id : String} {e : Event} {row : Row} {new : Option Row} {token : Int}
    (h : RowStep id e (some row) new) (hended : row.Ended token) :
    ∃ row', new = some row' ∧ row'.Ended token ∧
      (row' = row ∨ (∃ m, e.call = .attachManifest id m ∧ row' = row.attach m) ∨
        ∃ agentID u outcome, e.call = .finish id agentID u outcome ∧
          (∃ rows, e.response = .ok rows) ∧ token ≤ int64 u ∧ row' = row.finish outcome) := by
  have hnone := hended.agent_none
  cases h with
  | idle => exact ⟨row, rfl, hended, .inl rfl⟩
  | attach m =>
      exact ⟨row.attach m, rfl, ⟨hended.sound.attach m, hended.terminal, hended.token_eq⟩,
        .inr (.inl ⟨m, rfl, rfl⟩)⟩
  | claim _ _ _ _ hguard =>
      exact absurd hguard.1 hended.terminal.ne_queued
  | renew _ _ _ _ _ hheld =>
      rw [hheld.1] at hnone
      cases hnone
  | finish agentID u outcome _ _ hguard =>
      refine ⟨_, rfl, hended.finish outcome,
        .inr (.inr ⟨agentID, u, outcome, rfl, ⟨_, rfl⟩, ?_, rfl⟩)⟩
      rw [← hended.token_eq]
      exact hguard.2
  | requeue _ _ hguard =>
      obtain ⟨agentID, hagent⟩ := hended.sound.agent_of_expired hguard
      rw [hagent] at hnone
      cases hnone

/-- On a row that has ended only `Finish` acts on the result. -/
theorem RowStep.result_kept {id : String} {e : Event} {row : Row} {new : Option Row} {token : Int}
    (h : RowStep id e (some row) new) (hended : row.Ended token) :
    ∃ row', new = some row' ∧ row'.Ended token ∧
      (row'.result = row.result ∨
        ∃ agentID u outcome, e.call = .finish id agentID u outcome ∧
          (∃ rows, e.response = .ok rows) ∧ token ≤ int64 u ∧ row'.result = outcome.result) := by
  obtain ⟨row', hrow', hended', hsame | ⟨m, -, hattach⟩ | hfinish⟩ := h.of_ended hended
  · exact ⟨row', hrow', hended', .inl (congrArg Row.result hsame)⟩
  · exact ⟨row', hrow', hended', .inl (by rw [hattach]; rfl)⟩
  · obtain ⟨agentID, u, outcome, hcall, hok, htoken, hreported⟩ := hfinish
    exact ⟨row', hrow', hended',
      .inr ⟨agentID, u, outcome, hcall, hok, htoken, congrArg Row.result hreported⟩⟩

/-- One statement on a table where the job has ended. -/
theorem result_step {db db' : DemandJobs} {e : Event} {id : String} {row : Row} {token : Int}
    (hstep : Step db e db') (hrow : db.lookup id = some row) (hended : row.Ended token) :
    ∃ row', db'.lookup id = some row' ∧ row'.Ended token ∧
      (row'.result = row.result ∨
        ∃ agentID u outcome, e.call = .finish id agentID u outcome ∧ e.input.fault = none ∧
          token ≤ int64 u ∧ row'.result = outcome.result) := by
  have hrs := row_step hstep id
  rw [hrow] at hrs
  obtain ⟨row', hrow', hended', hresult⟩ := hrs.result_kept hended
  refine ⟨row', hrow', hended', hresult.imp_right ?_⟩
  rintro ⟨agentID, u, outcome, hcall, ⟨rows, hok⟩, htoken, hreported⟩
  exact ⟨agentID, u, outcome, hcall, fault_none_of_ok hstep hok, htoken, hreported⟩

/-- A `Finish` whose token is not below that of a job that has ended overwrites its result. -/
theorem result_overwritten {db db' : DemandJobs} {e : Event} {id agentID : String} {row : Row}
    {token : Int} {u : UInt64} {outcome : Outcome} (hstep : Step db e db')
    (hrow : db.lookup id = some row) (hended : row.Ended token)
    (hcall : e.call = .finish id agentID u outcome) (hfault : e.input.fault = none)
    (htoken : token ≤ int64 u) : (db'.lookup id).map Row.result = some outcome.result := by
  obtain ⟨call, input, response⟩ := e
  obtain rfl : call = .finish id agentID u outcome := hcall
  have hguard : row.Finishable agentID u :=
    ⟨.inr hended.agent_none, hended.token_eq.symm ▸ htoken⟩
  have hfault : input.fault = none := hfault
  simp only [Step, Answers, effect, hfault, Stmt.exec, update_of_match hrow hguard,
    Prod.mk.injEq] at hstep
  rw [← hstep.2, AList.lookup_insert]
  rfl

/-- As long as every `Finish` repeats the result, it stays. -/
theorem result_kept_of_repeats {db db' : DemandJobs} {later : List Event} {id : String} {row : Row}
    (hlater : Execution Step db later db') (hrow : db.lookup id = some row)
    (hended : row.Ended row.leaseToken)
    (hrepeats : ∀ e ∈ later, e.Repeats id row.leaseToken row.result) :
    ∃ row', db'.lookup id = some row' ∧ row'.Ended row.leaseToken ∧ row'.result = row.result := by
  induction hlater with
  | refl => exact ⟨row, hrow, hended, rfl⟩
  | @snoc before s s' e _ hstep ih =>
      obtain ⟨r, hr, hrended, hrresult⟩ := ih fun e he => hrepeats e (by simp [he])
      obtain ⟨r', hr', hrended', hresult⟩ := result_step hstep hr hrended
      refine ⟨r', hr', hrended', ?_⟩
      rcases hresult with hsame | ⟨agentID, u, outcome, hcall, hfault, htoken, hreported⟩
      · exact hsame.trans hrresult
      · exact hreported.trans (hrepeats e (by simp) agentID u outcome hcall hfault htoken)

/-- Along every execution, a row that has ended stays ended under the same token. -/
theorem ended_of_ended {db db' : DemandJobs} {later : List Event} {id : String} {row : Row}
    {token : Int} (hlater : Execution Step db later db') (hrow : db.lookup id = some row)
    (hended : row.Ended token) : ∃ row', db'.lookup id = some row' ∧ row'.Ended token := by
  refine hlater.invariant (I := fun s => ∃ r, s.lookup id = some r ∧ r.Ended token)
    ⟨row, hrow, hended⟩ ?_
  rintro s e s' ⟨r, hr, hrended⟩ hstep
  obtain ⟨r', hr', hrended', -⟩ := result_step hstep hr hrended
  exact ⟨r', hr', hrended'⟩

/-- The recorded result of a job. From every reachable table in which the job has ended, and along
every further execution, all tables reached keep the status, the result, the artifacts and the
metrics if and only if every later `Finish` with a token not below the row's `lease_token`
reports the recorded result again. -/
theorem result_immutable_iff {history later : List Event} {db db' : DemandJobs} {id : String}
    {row : Row} (hrun : Run history db) (hrow : db.lookup id = some row)
    (hterminal : row.status.Terminal) (hlater : Execution Step db later db') :
    (∀ before s, before <+: later → Execution Step db before s →
      (s.lookup id).map Row.result = some row.result) ↔
    ∀ e ∈ later, e.Repeats id row.leaseToken row.result := by
  have hended : row.Ended row.leaseToken := ⟨hrun.sound id row hrow, hterminal, rfl⟩
  constructor
  · intro hkept e he agentID u outcome hcall hfault htoken
    obtain ⟨before, after, rfl⟩ := List.append_of_mem he
    obtain ⟨s, s', hbefore, hstep, -⟩ := hlater.split_at
    -- the row has still ended before `e`, so a report that differs would show right after it
    obtain ⟨r, hr, hrended⟩ := ended_of_ended hbefore hrow hended
    have hnew := result_overwritten hstep hr hrended hcall hfault htoken
    have hsame := hkept (before ++ [e]) s' ⟨after, by simp⟩ (hbefore.snoc hstep)
    exact Option.some.inj (hnew.symm.trans hsame)
  · intro hrepeats before s hinit hbefore
    obtain ⟨r, hr, -, hresult⟩ := result_kept_of_repeats hbefore hrow hended
      fun e he => hrepeats e (hinit.mem he)
    rw [hr, Option.map_some, hresult]

/-! ## A report that is sent again -/

/-- The columns of a row that a report settles: all but the job and its manifest. -/
structure Settlement where
  status : JobStatus
  leaseAgent : Option String
  leaseExpiresAt : Option Time
  leaseToken : Int
  retryCount : Int
  resultRootCID : Option String
  artifacts : Option Strings
  metrics : Option Metrics

/-- The columns of a row that a report settles. -/
def Row.settlement (row : Row) : Settlement where
  status := row.status
  leaseAgent := row.leaseAgent
  leaseExpiresAt := row.leaseExpiresAt
  leaseToken := row.leaseToken
  retryCount := row.retryCount
  resultRootCID := row.resultRootCID
  artifacts := row.artifacts
  metrics := row.metrics

/-- The statement is no `Finish`. -/
def Stmt.NotFinish (s : Stmt) : Prop :=
  ∀ id agentID token outcome, s ≠ .finish id agentID token outcome

/-- A report settles a row by its token and its retries, and by what it reports. -/
theorem Row.settlement_finish {row row' : Row} (h : row.settlement = row'.settlement)
    (outcome : Outcome) : (row.finish outcome).settlement = (row'.finish outcome).settlement := by
  have htoken : row.leaseToken = row'.leaseToken := congrArg Settlement.leaseToken h
  have hretries : row.retryCount = row'.retryCount := congrArg Settlement.retryCount h
  show Settlement.mk _ none none row.leaseToken row.retryCount _ _ _ =
    Settlement.mk _ none none row'.leaseToken row'.retryCount _ _ _
  rw [htoken, hretries]
  rfl

/-- As long as nobody reports again, a row that has ended stays settled. -/
theorem settlement_kept {db db' : DemandJobs} {later : List Event} {id : String} {row : Row}
    {token : Int} (hlater : Execution Step db later db') (hrow : db.lookup id = some row)
    (hended : row.Ended token) (hothers : ∀ e ∈ later, e.call.NotFinish) :
    ∃ row', db'.lookup id = some row' ∧ row'.Ended token ∧ row'.settlement = row.settlement := by
  refine (hlater.restrict hothers).invariant (I := fun s => ∃ r, s.lookup id = some r ∧
    r.Ended token ∧ r.settlement = row.settlement) ⟨row, hrow, hended, rfl⟩ ?_
  intro s e s' hs hstep
  obtain ⟨r, hr, hrended, hsettled⟩ := hs
  obtain ⟨hnot, hstep⟩ := hstep
  have hrs := row_step hstep id
  rw [hr] at hrs
  obtain ⟨r', hr', hrended', hsame | ⟨m, -, hattach⟩ | hfinish⟩ := hrs.of_ended hrended
  · exact ⟨r', hr', hrended', (congrArg Row.settlement hsame).trans hsettled⟩
  · exact ⟨r', hr', hrended', by rw [hattach]; exact hsettled⟩
  · obtain ⟨agentID, u, outcome, hcall, -⟩ := hfinish
    exact absurd hcall (hnot id agentID u outcome)

/-- What a report that took effect leaves behind. -/
theorem finish_step {db db' : DemandJobs} {id agentID : String} {token : UInt64}
    {outcome : Outcome} {input : Input} {n : ℕ} (hsound : Sound db)
    (hstep : Step db ⟨.finish id agentID token outcome, input, .ok n⟩ db') (hn : n ≠ 0) :
    ∃ row : Row, db'.lookup id = some (row.finish outcome) ∧
      (row.finish outcome).Ended row.leaseToken := by
  have hrs := row_step hstep id
  generalize hold : db.lookup id = old at hrs
  generalize hnew : db'.lookup id = new at hrs
  cases hrs with
  | idle _ _ hidle => exact absurd ⟨rfl, n, rfl, hn⟩ hidle
  | finish _ _ _ _ row _ =>
      exact ⟨row, rfl, (hsound id row hold).finish outcome, outcome.status_terminal, rfl⟩

/-- A report of a job that has ended settles it as the report before did, or does nothing. -/
theorem finish_again {db db' : DemandJobs} {id agentID : String} {token : UInt64}
    {outcome : Outcome} {input : Input} {response : Except SqlError ℕ} {row : Row} {t : Int}
    (hstep : Step db ⟨.finish id agentID token outcome, input, response⟩ db')
    (hrow : db.lookup id = some row) (hended : row.Ended t) :
    ∃ row', db'.lookup id = some row' ∧ (row' = row ∨ row' = row.finish outcome) := by
  have hrs := row_step hstep id
  rw [hrow] at hrs
  obtain ⟨row', hrow', -, hsame | ⟨m, hcall, -⟩ | hfinish⟩ := hrs.of_ended hended
  · exact ⟨row', hrow', .inl hsame⟩
  · cases hcall
  · obtain ⟨_, _, _, hcall, -, -, hreported⟩ := hfinish
    cases hcall
    exact ⟨row', hrow', .inr hreported⟩

/-- A report with a token below that of the row does nothing. -/
theorem finish_refused {db db' : DemandJobs} {id agentID : String} {token : UInt64}
    {outcome : Outcome} {input : Input} {response : Except SqlError ℕ} {row : Row}
    (hstep : Step db ⟨.finish id agentID token outcome, input, response⟩ db')
    (hrow : db.lookup id = some row) (hlt : int64 token < row.leaseToken) :
    db' = db ∧ ∀ n, response = .ok n → n = 0 := by
  have hno : ∀ r, db.lookup id = some r → ¬ r.Finishable agentID token := by
    intro r hr hguard
    obtain rfl : r = row := Option.some.inj (hr.symm.trans hrow)
    exact absurd hguard.2 (by omega)
  cases hfault : input.fault with
  | some e =>
      simp only [Step, Answers, effect, hfault, Prod.mk.injEq] at hstep
      refine ⟨hstep.2.symm, fun n hn => ?_⟩
      rw [← hstep.1] at hn
      cases hn
  | none =>
      simp only [Step, Answers, effect, hfault, Stmt.exec, update_of_no_match hno,
        Prod.mk.injEq] at hstep
      refine ⟨hstep.2.symm, fun n hn => ?_⟩
      rw [← hstep.1] at hn
      cases hn
      rfl

/-- Retrying a report is safe. Let a report be sent, then any statements of anyone that are no
`Finish`, and then the report again. If the first one took effect, the row is settled at the end as
it was right after it; and if the first one was refused for its token, so is the second. -/
theorem finish_retry_safe {history later : List Event} {db db₁ db₂ db₃ : DemandJobs}
    {id agentID : String} {token : UInt64} {outcome : Outcome} {input input' : Input}
    {response response' : Except SqlError ℕ} (hrun : Run history db)
    (hfirst : Step db ⟨.finish id agentID token outcome, input, response⟩ db₁)
    (hlater : Execution Step db₁ later db₂) (hothers : ∀ e ∈ later, e.call.NotFinish)
    (hagain : Step db₂ ⟨.finish id agentID token outcome, input', response'⟩ db₃) :
    (∀ n, response = .ok n → n ≠ 0 →
      ∃ row₁ row₃, db₁.lookup id = some row₁ ∧ db₃.lookup id = some row₃ ∧
        row₃.settlement = row₁.settlement) ∧
    (∀ row, db.lookup id = some row → int64 token < row.leaseToken →
      db₃ = db₂ ∧ ∀ n, response' = .ok n → n = 0) := by
  constructor
  · intro n hresponse hn
    rw [hresponse] at hfirst
    obtain ⟨row, hrow₁, hended⟩ := finish_step hrun.sound hfirst hn
    obtain ⟨row₂, hrow₂, hended₂, hsettled⟩ := settlement_kept hlater hrow₁ hended hothers
    obtain ⟨row₃, hrow₃, hsame | hfinished⟩ := finish_again hagain hrow₂ hended₂
    · exact ⟨_, row₃, hrow₁, hrow₃, (congrArg Row.settlement hsame).trans hsettled⟩
    · refine ⟨_, row₃, hrow₁, hrow₃, ?_⟩
      rw [hfinished]
      exact Row.settlement_finish hsettled outcome
  · intro row hrow hlt
    -- the token of the row has not gone down since the first report
    obtain ⟨row₂, hrow₂, hle⟩ := token_mono ((Execution.single hfirst).trans hlater) hrun.sound hrow
    exact finish_refused hagain hrow₂ (by omega)

namespace Sample

/-- The row of the sample job after its agent reported success. -/
def finishedRow : Row :=
  { claimedRow with
    leaseAgent := none, leaseExpiresAt := none, status := .succeeded
    resultRootCID := some "cid", artifacts := some (some ["out"]), metrics := some none }

theorem finished_row : (play finished).2.lookup "job" = some finishedRow := by decide

/-- A report of a failure. -/
def failure : Outcome := ⟨false, "", none, none⟩

end Sample

/-- A heartbeat of the former holder does not touch the result of the finished sample job. -/
theorem result_immutable_iff_finished :
    Sample.finishedRow.status.Terminal ∧
    ∀ before s,
      before <+: [⟨.heartbeat "job" "a" 1 second, { now := 4 }, .ok (0 : ℕ)⟩] →
      Execution Step (play Sample.finished).2 before s →
      (s.lookup "job").map Row.result = some Sample.finishedRow.result := by
  have hstep : Execution Step (play Sample.finished).2
      [⟨.heartbeat "job" "a" 1 second, { now := 4 }, .ok (0 : ℕ)⟩] (play Sample.finished).2 :=
    .single rfl
  refine ⟨.inl rfl, ?_⟩
  refine (result_immutable_iff (play_run Sample.finished) Sample.finished_row (.inl rfl)
    hstep).mpr ?_
  intro e he agentID u outcome hcall
  rw [List.mem_singleton.mp he] at hcall
  cases hcall

/-- The sample report is sent again after a heartbeat of its agent came too late. -/
theorem finish_retry_safe_finished :
    ∃ db₃, Step (play Sample.finished).2
        ⟨.finish "job" "a" 1 Sample.outcome, { now := 5 }, .ok (1 : ℕ)⟩ db₃ ∧
      ∃ row₁ row₃, (play Sample.finished).2.lookup "job" = some row₁ ∧
        db₃.lookup "job" = some row₃ ∧ row₃.settlement = row₁.settlement := by
  have hfirst : Step (play Sample.claimed).2
      ⟨.finish "job" "a" 1 Sample.outcome, { now := 3 }, .ok (1 : ℕ)⟩
      (play Sample.finished).2 := rfl
  have hlate : Execution Step (play Sample.finished).2
      [⟨.heartbeat "job" "a" 1 second, { now := 4 }, .ok (0 : ℕ)⟩] (play Sample.finished).2 :=
    .single rfl
  have hothers : ∀ e ∈ [(⟨.heartbeat "job" "a" 1 second, { now := 4 }, .ok (0 : ℕ)⟩ : Event)],
      e.call.NotFinish := by
    intro e he
    rw [List.mem_singleton.mp he]
    exact fun _ _ _ _ => nofun
  obtain ⟨db₃, hagain⟩ : ∃ db₃, Step (play Sample.finished).2
      ⟨.finish "job" "a" 1 Sample.outcome, { now := 5 }, .ok (1 : ℕ)⟩ db₃ := ⟨_, rfl⟩
  exact ⟨db₃, hagain, (finish_retry_safe (play_run Sample.claimed) hfirst hlate hothers
    hagain).1 1 rfl (by decide)⟩

/-- A second `Finish` turns the recorded success of the sample job into a failure. -/
theorem result_overwritten_finished :
    Run (play Sample.finished).1 (play Sample.finished).2 ∧
    (play Sample.finished).2.lookup "job" = some Sample.finishedRow ∧
    Sample.finishedRow.status.Terminal ∧
    ∃ db', Step (play Sample.finished).2
        ⟨.finish "job" "a" 1 Sample.failure, { now := 4 }, .ok (1 : ℕ)⟩ db' ∧
      (db'.lookup "job").map Row.result ≠ some Sample.finishedRow.result :=
  ⟨play_run _, Sample.finished_row, .inl rfl, _, rfl, by decide⟩

end MutualCloud.Store
