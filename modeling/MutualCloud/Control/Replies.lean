import MutualCloud.Control.Handlers
import MutualCloud.Store.Fencing

/-!
# What the handlers answer, and when it is true

One execution of a handler on its own, from an arbitrary database, DHT and request, and with any
failures of the two. `finish_reply_iff` and `claim_reply_iff` say exactly when the answer agrees
with what the store did: `finishHandler` goes wrong on every report that matches no row, since
`Finish` does not count the rows it affected, and `tryClaimHandler` on every refused claim of a
job without a manifest, since it goes on without a lease.
-/

namespace MutualCloud.Control

open Go KeyedTable Interaction Store

/-- An event of the control server. -/
abbrev Event := Interaction.Event Call Call.Response Input

/-- Whether a reply is an error. -/
def Reply.IsError (reply : Reply) : Prop :=
  ∃ status message, reply = .error status message

/-- The step is no statement of the store. -/
def Call.NotSql (c : Call) : Prop :=
  ∀ s, c ≠ .sql s

/-! ## Finish -/

/-- What `Finish` does to the table when the database does not fail. -/
theorem finish_answer (c : FinishCall) {input : Store.Input} (db : DemandJobs)
    (hfault : input.fault = none) :
    ((∃ row, db.lookup c.id = some row ∧ row.Finishable c.agentID c.token) ∧
      (Store.effect (.finish c.id c.agentID c.token c.outcome) input db).1 = .ok (1 : ℕ)) ∨
    ((¬ ∃ row, db.lookup c.id = some row ∧ row.Finishable c.agentID c.token) ∧
      (Store.effect (.finish c.id c.agentID c.token c.outcome) input db).1 = .ok (0 : ℕ)) := by
  simp only [Store.effect, hfault, Stmt.exec]
  exact update_affected db c.id (Row.Finishable c.agentID c.token) (Row.finish c.outcome)

/-- The mirror of a finished job sends no statement to the store. -/
theorem mirror_finish_not_sql (ns id : String) (outcome : Outcome) :
    (mirrorFinish ns id outcome).Always (fun _ _ => True) Call.NotSql := by
  simp [mirrorFinish, getJSON, timeNow, putJSON, delJSON, Prog.perform, Prog.Always, Call.NotSql]

/-- A `Finish` of the store updated a row. -/
def FinishUpdated (events : List Event) : Prop :=
  ∃ id agentID token outcome input, ∃ n : ℕ,
    ⟨.sql (.finish id agentID token outcome), input, .ok n⟩ ∈ events ∧ n ≠ 0

/-- A report whose statement fails ends with an error. -/
theorem finish_job_run_error {ns : String} {c : FinishCall} {inputs : ℕ → Input} {w : World}
    {e : SqlError} {db : DemandJobs}
    (h : Store.effect (.finish c.id c.agentID c.token c.outcome) (inputs 0).toInput w.db =
      (.error e, db)) :
    (finishJob ns c).run effect inputs w =
      ⟨.error 409 ("finish failed: " ++ e),
        [⟨.sql (.finish c.id c.agentID c.token c.outcome), inputs 0, .error e⟩],
        { w with db := db }⟩ := by
  simp [finishJob, store, PGStore.finish, Prog.embed, Prog.run, effect, h, Err.text]

/-- A report whose statement does not fail is mirrored and answered with 204, whatever the number
of rows it affected. -/
theorem finish_job_run_ok {ns : String} {c : FinishCall} {inputs : ℕ → Input} {w : World}
    {n : ℕ} {db : DemandJobs}
    (h : Store.effect (.finish c.id c.agentID c.token c.outcome) (inputs 0).toInput w.db =
      (.ok n, db)) :
    (finishJob ns c).run effect inputs w =
      let rest := (mirrorFinish ns c.id c.outcome).run effect (fun k => inputs (k + 1))
        { w with db := db }
      ⟨.noContent,
        ⟨.sql (.finish c.id c.agentID c.token c.outcome), inputs 0, .ok n⟩ :: rest.events,
        rest.state⟩ := by
  simp [finishJob, store, PGStore.finish, Prog.embed, Prog.run, effect, h, Prog.run_bind]

/-- Only the statement itself can have updated the row. -/
theorem finish_updated_cons {id agentID : String} {token : UInt64} {outcome : Outcome}
    {input : Input} {n : ℕ} {rest : List Event} (hrest : ∀ e ∈ rest, e.call.NotSql) :
    FinishUpdated (⟨.sql (.finish id agentID token outcome), input, .ok n⟩ :: rest) ↔ n ≠ 0 := by
  constructor
  · rintro ⟨id', agentID', token', outcome', input', m, hmem, hm⟩
    rcases List.mem_cons.mp hmem with heq | hmem
    · cases heq
      exact hm
    · exact absurd rfl (hrest _ hmem _)
  · intro hn
    exact ⟨id, agentID, token, outcome, input, n, List.mem_cons_self, hn⟩

/-- A report is answered truthfully: 204 exactly when the store updated a row, and otherwise an
error that leaves the DHT as it was. -/
def FinishReported (before : World) (run : Prog.Run Call Call.Response Input World Reply) : Prop :=
  (run.value = .noContent ↔ FinishUpdated run.events) ∧
  (¬ FinishUpdated run.events → run.value.IsError ∧ run.state.dht = before.dht)

/-- The checks of `finishHandler` answer with errors of the client. -/
theorem finish_request_status {env : Env} {r : Request FinishIn} {reply : Reply}
    (h : finishRequest env r = .error reply) :
    ∃ code message, reply = .error code message ∧ code ∈ [400, 401, 405] := by
  unfold finishRequest at h
  split at h
  · cases h
    exact ⟨401, _, rfl, by simp⟩
  split at h
  · cases h
    exact ⟨405, _, rfl, by simp⟩
  split at h
  · split at h
    · cases h
      exact ⟨400, _, rfl, by simp⟩
    · cases h
  · cases h
    exact ⟨400, _, rfl, by simp⟩

/-- The checks of `finishHandler` answer with errors only. -/
theorem finish_request_error {env : Env} {r : Request FinishIn} {reply : Reply}
    (h : finishRequest env r = .error reply) : reply.IsError := by
  obtain ⟨code, message, hreply, -⟩ := finish_request_status h
  exact ⟨code, message, hreply⟩

/-- When `finishHandler` tells the truth: exactly when the request fails a check, or the database
fails, or the report matches the row of its job. -/
theorem finish_reply_iff (env : Env) (ns : String) (r : Request FinishIn) (inputs : ℕ → Input)
    (w : World) :
    FinishReported w ((finishHandler env ns r).run effect inputs w) ↔
      ∀ c, finishRequest env r = .ok c → (inputs 0).fault = none →
        ∃ row, w.db.lookup c.id = some row ∧ row.Finishable c.agentID c.token := by
  unfold finishHandler
  cases hreq : finishRequest env r with
  | error reply =>
      obtain ⟨status, message, rfl⟩ := finish_request_error hreq
      simp [FinishReported, FinishUpdated, Prog.run, Reply.IsError]
  | ok c =>
      cases hfault : (inputs 0).fault with
      | some e =>
          have h : Store.effect (.finish c.id c.agentID c.token c.outcome) (inputs 0).toInput w.db =
              (.error e, w.db) := by
            simp [Store.effect, hfault]
          simp [finish_job_run_error h, FinishReported, FinishUpdated, Reply.IsError]
      | none =>
          -- the answer is 204 in both cases; only the number of affected rows tells them apart
          have hmirror := Prog.run_always effect (mirror_finish_not_sql ns c.id c.outcome)
          rcases finish_answer c w.db hfault with ⟨hmatch, hone⟩ | ⟨hno, hzero⟩
          · rw [finish_job_run_ok (Prod.ext hone rfl)]
            simp [FinishReported, finish_updated_cons (hmirror _ _), hmatch]
          · rw [finish_job_run_ok (Prod.ext hzero rfl)]
            simp [FinishReported, finish_updated_cons (hmirror _ _), hno]

namespace Sample

/-- The environment of a server that does not ask for a token. -/
def env : Env := ⟨"1", ""⟩

/-- The agent `a` lost the sample job, which the agent `b` has claimed with token 2; the mirror
agrees with the row. -/
def reclaimed : World where
  db := (play (Store.Sample.requeued ++
    [(.tryClaim "job" "b" (15 * second), { now := 15000000004 })])).2
  dht
    | .state "job" => some ⟨"job", .assigned, 4, 15000000004, "b", some 2, none⟩
    | .lease "job" => some ⟨"b", "", 30000000004, 2⟩
    | _ => none
  dirty := ["job"]
  trigger := false

/-- The late report of the agent `a`. -/
def lateFinish : Request FinishIn where
  method := "POST"
  path := "/jobs/job/finish"
  header
    | "X-Agent-ID" => "a"
    | "X-Lease-Token" => "1"
    | _ => ""
  body := .ok ⟨"succeeded", none, none, "cid"⟩

/-- What the late report says. -/
def lateOutcome : Outcome := ⟨true, "cid", none, none⟩

/-- A clock that ticks and no failures. -/
def inputs (n : ℕ) : Input := { now := 15000000005 + n }

end Sample

/-- The late report matches no row and is answered with 204, and the mirror now says that the job
has succeeded, while the agent `b` holds its lease. -/
theorem finish_late_reported :
    let run := (finishHandler Sample.env "mc" Sample.lateFinish).run effect Sample.inputs
      Sample.reclaimed
    ¬ FinishReported Sample.reclaimed run ∧
    ((run.state.db.lookup "job").map Row.leaseAgent = some (some "b")) ∧
    ((run.state.dht (.state "job")).map TaskState.status = some .succeeded) := by
  refine ⟨?_, by decide, by decide⟩
  rintro ⟨hreply, -⟩
  have hupdated := hreply.mp rfl
  have hanswer : Store.effect (.finish "job" "a" 1 Sample.lateOutcome) (Sample.inputs 0).toInput
      Sample.reclaimed.db = (.ok (0 : ℕ), Sample.reclaimed.db) := rfl
  have hmirror := Prog.run_always effect (mirror_finish_not_sql "mc" "job" Sample.lateOutcome)
  have hrun := @finish_job_run_ok "mc" ⟨"job", "a", 1, Sample.lateOutcome⟩ _ _ _ _ hanswer
  change FinishUpdated ((finishJob "mc" ⟨"job", "a", 1, Sample.lateOutcome⟩).run effect
    Sample.inputs Sample.reclaimed).events at hupdated
  rw [hrun, finish_updated_cons (hmirror _ _)] at hupdated
  exact hupdated rfl

/-! ## Try-claim -/

/-- What `store.TryClaim` returns to the handler: the lease, and the arguments it was called
with; nothing when the handler does not call it or it returns an error. -/
def claimReturned (env : Env) (r : Request TryClaimIn) (inputs : ℕ → Input) (w : World) :
    Option (ClaimCall × Lease) :=
  match tryClaimRequest env r with
  | .error _ => none
  | .ok c =>
      match ((PGStore.tryClaim c.id c.agentID c.ttl).run Store.effect (fun n => (inputs n).toInput)
        w.db).value with
      | .error _ => none
      | .ok lease => some (c, lease)

/-- The mirror of the claim was written: the state assigned to the agent and the lease record. -/
def ClaimMirrored (events : List Event) (id agentID : String) : Prop :=
  (∃ st input, ⟨.putJSON (.state id) st, input, ()⟩ ∈ events ∧
    TaskState.status st = .assigned ∧ TaskState.assignedTo st = agentID) ∧
  (∃ lease input, ⟨.putJSON (.lease id) lease, input, ()⟩ ∈ events ∧
    TaskLease.owner lease = agentID)

/-- A claim is answered as the store decided it. -/
structure ClaimAgrees (before : World) (returned : Option (ClaimCall × Lease))
    (run : Prog.Run Call Call.Response Input World Reply) : Prop where
  not_panicked : run.value ≠ .panicked
  ok_iff : (∃ lease, run.value = .leaseOut true lease) ↔ returned ≠ none
  mirrored : ∀ c lease, returned = some (c, lease) →
    lease.agentID = c.agentID ∧ ClaimMirrored run.events c.id c.agentID
  refused : returned = none →
    run.state.dht = before.dht ∧
      (run.value.IsError ∨ ∃ lease, run.value = .leaseOut false lease)

/-- The checks of `tryClaimHandler` answer with errors only. -/
theorem try_claim_request_error {env : Env} {r : Request TryClaimIn} {reply : Reply}
    (h : tryClaimRequest env r = .error reply) : reply.IsError := by
  unfold tryClaimRequest at h
  split at h
  · cases h
    exact ⟨_, _, rfl⟩
  split at h
  · split at h
    · cases h
      exact ⟨_, _, rfl⟩
    · split at h
      · cases h
        exact ⟨_, _, rfl⟩
      · cases h
  · cases h
    exact ⟨_, _, rfl⟩

/-- A request that does not end in a claim of the store, answered without a step on the DHT. -/
theorem claim_agrees_refused {before : World}
    {run : Prog.Run Call Call.Response Input World Reply} (hdht : run.state.dht = before.dht)
    (hvalue : run.value.IsError ∨ run.value = .leaseOut false default) :
    ClaimAgrees before none run := by
  rcases hvalue with ⟨status, message, hvalue⟩ | hvalue
  · exact ⟨by simp [hvalue], by simp [hvalue], by simp, fun _ => ⟨hdht, .inl ⟨_, _, hvalue⟩⟩⟩
  · exact ⟨by simp [hvalue], by simp [hvalue], by simp, fun _ => ⟨hdht, .inr ⟨_, hvalue⟩⟩⟩

/-- A claim without a lease writes the state and then panics. -/
theorem assign_job_nil (c : ClaimCall) (inputs : ℕ → Input) (w : World) :
    ((assignJob c none).run effect inputs w).value = .panicked := by
  simp [assignJob, mirrorAssigned, timeNow, getJSON, putJSON, Prog.perform, Prog.run]

/-- A claim with a lease is mirrored and answered with it. -/
theorem assign_job_some (c : ClaimCall) (claimed : Lease) (inputs : ℕ → Input) (w : World) :
    (∃ lease, ((assignJob c (some claimed)).run effect inputs w).value = .leaseOut true lease) ∧
      ClaimMirrored ((assignJob c (some claimed)).run effect inputs w).events c.id c.agentID := by
  simp only [assignJob, mirrorAssigned, timeNow, getJSON, putJSON, Prog.perform, Prog.call_bind,
    Prog.done_bind, Prog.pure_eq_done, Prog.run]
  refine ⟨⟨_, rfl⟩, ⟨_, _, .tail _ (.tail _ (.head _)), rfl, rfl⟩,
    ⟨_, _, .tail _ (.tail _ (.tail _ (.head _))), rfl⟩⟩

/-- A larger history still shows the mirror. -/
theorem ClaimMirrored.append {events more : List Event} {id agentID : String}
    (h : ClaimMirrored more id agentID) : ClaimMirrored (events ++ more) id agentID := by
  obtain ⟨⟨st, input, hst, hstatus⟩, lease, input', hlease, howner⟩ := h
  exact ⟨⟨st, input, List.mem_append_right _ hst, hstatus⟩,
    lease, input', List.mem_append_right _ hlease, howner⟩

/-- After its checks, `tryClaimHandler` agrees with the store unless the store reports a missing
manifest. -/
theorem claim_job_agrees_iff {env : Env} {r : Request TryClaimIn} {c : ClaimCall}
    (hreq : tryClaimRequest env r = .ok c) (inputs : ℕ → Input) (w : World) :
    ClaimAgrees w (claimReturned env r inputs w) ((claimJob c).run effect inputs w) ↔
      ((PGStore.tryClaim c.id c.agentID c.ttl).run Store.effect (fun n => (inputs n).toInput)
        w.db).value ≠ .error .noManifest := by
  have hvalue := store_run_value (PGStore.tryClaim c.id c.agentID c.ttl) inputs w
  have hdht := store_run_dht (PGStore.tryClaim c.id c.agentID c.ttl) inputs w
  simp only [claimJob, claimReturned, hreq, Prog.run_bind]
  generalize (store (PGStore.tryClaim c.id c.agentID c.ttl)).run effect inputs w = first
    at hvalue hdht
  rw [hvalue]
  cases hclaim : ((PGStore.tryClaim c.id c.agentID c.ttl).run Store.effect
      (fun n => (inputs n).toInput) w.db).value with
  | ok claimed =>
      refine iff_of_true ?_ (by simp)
      obtain ⟨⟨lease, hreply⟩, hmirrored⟩ := assign_job_some c claimed
        (fun n => inputs (n + first.events.length)) first.state
      refine ⟨?_, ?_, ?_, by simp⟩
      · simp [answerClaim, hreply]
      · simp [answerClaim, hreply]
      · rintro c' lease' heq
        cases heq
        exact ⟨PGStore.try_claim_agent hclaim, hmirrored.append⟩
  | error e =>
      cases e with
      | noManifest =>
          -- the handler goes on with a nil lease
          refine iff_of_false ?_ (by simp)
          intro h
          exact h.not_panicked
            (assign_job_nil c (fun n => inputs (n + first.events.length)) first.state)
      | leaseConflict =>
          exact iff_of_true (claim_agrees_refused hdht (.inr rfl)) (by simp)
      | jobNotFound | badToken | sql =>
          exact iff_of_true (claim_agrees_refused hdht (.inl ⟨_, _, rfl⟩)) (by simp)

/-- When `tryClaimHandler` agrees with the store: always, except on a request for a job that
exists, cannot be claimed, and has no manifest, and on which no statement fails. -/
theorem claim_reply_iff (env : Env) (r : Request TryClaimIn) (inputs : ℕ → Input) (w : World) :
    ClaimAgrees w (claimReturned env r inputs w) ((tryClaimHandler env r).run effect inputs w) ↔
      ∀ c, tryClaimRequest env r = .ok c → (∀ k < 3, (inputs k).fault = none) →
        ∀ row, w.db.lookup c.id = some row →
          row.Claimable (inputs 0).now ∨
            (row.manifestRootCID ≠ none ∧ row.manifestRootCID ≠ some "") := by
  unfold tryClaimHandler
  cases hreq : tryClaimRequest env r with
  | error reply =>
      refine iff_of_true ?_ (by simp)
      have hnone : claimReturned env r inputs w = none := by simp [claimReturned, hreq]
      rw [hnone]
      exact claim_agrees_refused rfl (.inl (try_claim_request_error hreq))
  | ok c =>
      rw [claim_job_agrees_iff hreq, ne_eq, PGStore.try_claim_no_manifest_iff]
      constructor
      · intro hnot c' hc' hfaults row hrow
        cases hc'
        by_contra hbad
        rw [not_or, not_and_or, not_not, not_not] at hbad
        exact hnot ⟨hfaults, row, hrow, hbad⟩
      · rintro hok ⟨hfaults, row, hrow, hclaimable, hroot⟩
        rcases hok c rfl hfaults row hrow with h | ⟨hsome, hne⟩
        · exact hclaimable h
        · exact hroot.elim hsome hne

/-- The agent `a` asks for the sample job again, which never had a manifest. -/
def Sample.tryClaim : Request TryClaimIn where
  method := "POST"
  path := "/api/tasks/job/try-claim"
  header := fun _ => ""
  body := .ok ⟨"a", 15⟩

/-- The refused claim of a job without a manifest panics, and the mirror now says that the job is
assigned to `a`, while the agent `b` holds its lease. -/
theorem claim_without_manifest :
    let run := (tryClaimHandler Sample.env Sample.tryClaim).run effect Sample.inputs
      Sample.reclaimed
    ¬ ClaimAgrees Sample.reclaimed
      (claimReturned Sample.env Sample.tryClaim Sample.inputs Sample.reclaimed) run ∧
    run.value = .panicked ∧
    ((run.state.db.lookup "job").map Row.leaseAgent = some (some "b")) ∧
    ((run.state.dht (.state "job")).map TaskState.assignedTo = some "a") := by
  refine ⟨?_, by decide, by decide, by decide⟩
  intro h
  exact h.not_panicked (by decide)

end MutualCloud.Control
