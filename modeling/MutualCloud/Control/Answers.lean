import MutualCloud.Control.Retries
import MutualCloud.Library.Provenance

/-!
# What the control server tells its clients

Three answers of the control server speak about the row of a job: that it was created, what
`getTaskHandler` reports of it, and the lease of a claim. Each rests on one statement, which the
handler sent itself (`serve_rests`). So what a client was told is a fact about the table at some
point of the run, whatever else the server was doing, and facts about runs of the store become
facts about answers. `reads_monotone` says how far a later report can differ from an earlier
answer, and `grants_ordered` that no two clients are ever given the same token.
-/

namespace MutualCloud.Control

open Go KeyedTable Interaction Labelled Store

/-! ## The statement behind an answer -/

/-- A condition on statements, as one on the calls of a handler. -/
def Call.OnSql (W : (s : Stmt) → s.Response → Prop) : (c : Call) → c.Response → Prop
  | .sql s, r => W s r
  | .getJSON _, _ | .putJSON _ _, _ | .delJSON _, _ | .timeNow, _ | .enqueue _, _ => False

/-- A condition on statements, as one on the steps on the site. -/
def Site.Op.OnSql (W : (s : Stmt) → s.Response → Prop) : (op : Site.Op) → op.Response → Prop
  | .base c, r => c.OnSql W r
  | .key _ _, _ | .putJSON _ _, _ | .intn _, _ | .listQueued, _ | .announced _ _, _ => False

/-- A condition on statements, as one on the steps of the control server. -/
def Server.Op.OnSql (W : (s : Stmt) → s.Response → Prop) : (op : Server.Op) → op.Response → Prop
  | .site op, r => op.OnSql W r
  | .listPaged _ _, _ | .countByStatus, _ | .ws _ _, _ | .wsToken _ _, _ | .receive, _
  | .process _, _ => False

/-- The answer says nothing about the row of a job. -/
def Answer.Silent : Answer → Prop
  | .create (.created _) | .task _ | .reply (.leaseOut true _) => False
  | .reply _ | .create (.error _ _) | .redirect _ | .health | .tasks _ | .stats _ | .logs _ _
  | .lease _ => True

/-- The answer to a request with this path is what the response of the statement makes it. -/
def Answer.Stated (path : String) : Answer → (s : Stmt) → s.Response → Prop
  | .create (.created id), .createJob job, (r : Except SqlError ℕ) => job.id = id ∧ ∃ n, r = .ok n
  | .task out, .getJob _, r => ∃ job man, r = .ok (some job) ∧
      out = ⟨job.id, job.image, job.command, job.status, man⟩
  | .reply (.leaseOut true granted), .tryClaim id agentID _, r =>
      Handler.tryClaim.taskID path = some id ∧ ∃ t expiry, r = .ok (some (t, expiry)) ∧
        granted = ⟨agentID, "", expiry, int64 (uint64 t)⟩
  | _, _, _ => False

/-! ## The checks of the handlers -/

/-- The checks of `heartbeatHandler` answer with errors only. -/
theorem heartbeat_request_error {env : Env} {r : Request HbIn} {reply : Reply}
    (h : heartbeatRequest env r = .error reply) : reply.IsError := by
  unfold heartbeatRequest at h
  split at h
  · cases h
    exact ⟨_, _, rfl⟩
  split at h
  · split at h
    · cases h
      exact ⟨_, _, rfl⟩
    · dsimp only at h
      split at h <;> cases h
      exact ⟨_, _, rfl⟩
  · cases h
    exact ⟨_, _, rfl⟩

/-- The checks of `releaseHandler` answer with errors only. -/
theorem release_request_error {env : Env} {r : Request ReleaseIn} {reply : Reply}
    (h : releaseRequest env r = .error reply) : reply.IsError := by
  unfold releaseRequest at h
  split at h
  · cases h
    exact ⟨_, _, rfl⟩
  split at h
  · split at h <;> cases h
    exact ⟨_, _, rfl⟩
  · cases h
    exact ⟨_, _, rfl⟩

/-- The checks of `manifestHandler` answer with errors only. -/
theorem manifest_request_error {cfg : Config} {r : Request ManifestIn} {reply : Reply}
    (h : manifestRequest cfg r = .error reply) : reply.IsError := by
  unfold manifestRequest at h
  split at h
  · cases h
    exact ⟨_, _, rfl⟩
  split at h
  · split at h
    · cases h
      exact ⟨_, _, rfl⟩
    split at h
    · cases h
      exact ⟨_, _, rfl⟩
    split at h
    · cases h
      exact ⟨_, _, rfl⟩
    split at h <;> cases h
    exact ⟨_, _, rfl⟩
  · cases h
    exact ⟨_, _, rfl⟩

/-- The checks of `createTaskHandler` answer with errors only. -/
theorem create_task_request_error {env : Env} {r : Request CreateTaskReq} {reply : CreateReply}
    (h : createTaskRequest env r = .error reply) :
    ∃ status message, reply = .error status message := by
  unfold createTaskRequest at h
  split at h
  · cases h
    exact ⟨_, _, rfl⟩
  split at h
  · cases h
    exact ⟨_, _, rfl⟩
  split at h
  · cases h
    exact ⟨_, _, rfl⟩
  · split at h <;> cases h
    exact ⟨_, _, rfl⟩

/-! ## The handlers -/

section Handlers

variable {cfg : Config} {env : Env} {path : String} {α : Type}
  {W : α → (s : Stmt) → s.Response → Prop} {Q : α → Prop}

/-- A reply of a handler, as one that says nothing about a row. -/
abbrev Reply.Silent (r : Reply) : Prop := (Answer.reply r).Silent

/-- What a method of the store returns, in the world. -/
theorem store_rests {m : PGStore.Method α} (h : m.Rests W Q) :
    (store m).Rests (fun a c r => c.OnSql (W a) r) Q :=
  h.embed fun _ _ _ hw => hw

/-- What code on the world returns, on the site. -/
theorem lift_rests {p : Code α} (h : p.Rests (fun a c r => c.OnSql (W a) r) Q) :
    (Site.lift p).Rests (fun a op r => op.OnSql (W a) r) Q :=
  h.embed fun _ _ _ hw => hw

/-- What code on the site returns, in the control server. -/
theorem Server.lift_rests {p : SiteCode α} (h : p.Rests (fun a op r => op.OnSql (W a) r) Q) :
    (Server.lift p).Rests (fun a op r => op.OnSql (W a) r) Q :=
  h.embed fun _ _ _ hw => hw

/-- What a handler that acts answers. -/
theorem Server.reply_rests {p : SiteCode Reply}
    (h : p.Rests (fun a op r => op.OnSql ((Answer.reply a).Stated path) r) Reply.Silent) :
    (Server.reply p).Rests (fun a op r => op.OnSql (a.Stated path) r) Answer.Silent := by
  unfold Server.reply
  exact (Server.lift_rests h).map

/-- A lease that `TryClaim` returns is the one of its statement. -/
theorem try_claim_rests (id agentID : String) (ttl : Duration) :
    (PGStore.tryClaim id agentID ttl).Rests
      (fun result (s : Stmt) r => ∃ t expiry, result = .ok ⟨agentID, expiry, uint64 t⟩ ∧
        (⟨s, r⟩ : (s : Stmt) × s.Response) =
          ⟨.tryClaim id agentID ttl, .ok (some (t, expiry))⟩)
      (fun result => ∃ e, result = .error e) := by
  unfold PGStore.tryClaim
  rw [Prog.perform_bind]
  rintro (e | _ | ⟨t, expiry⟩)
  · exact .inl ⟨_, rfl⟩
  · refine Prog.rests_bind (fun result => ?_) _
    cases result with
    | error e => exact .inl ⟨_, rfl⟩
    | ok job => exact fun _ => .inl (.inl ⟨_, rfl⟩)
  · exact .inr ⟨t, expiry, rfl, rfl⟩

/-- A claim is answered with the lease of its statement. -/
theorem claim_job_rests {c : ClaimCall} (hpath : Handler.tryClaim.taskID path = some c.id) :
    (claimJob c).Rests (fun a call r => call.OnSql ((Answer.reply a).Stated path) r)
      Reply.Silent := by
  refine (store_rests (try_claim_rests c.id c.agentID c.ttl)).bind ?_ ?_
  · rintro _ ⟨e, rfl⟩
    cases e with
    | noManifest =>
        show (mirrorAssigned c >>= fun _ => Prog.done Reply.panicked).Rests _ _
        refine Prog.rests_bind (fun _ => ?_) _
        trivial
    | jobNotFound | leaseConflict | badToken | sql => trivial
  · rintro result call r hstated
    cases call with
    | sql s =>
        obtain ⟨t, expiry, rfl, hstmt⟩ := hstated
        cases hstmt
        refine Prog.rests_bind (fun _ => ?_) _
        exact fun _ => .inl (.inr ⟨hpath, t, expiry, rfl, rfl⟩)
    | getJSON | putJSON | delJSON | timeNow | enqueue => exact hstated.elim

theorem try_claim_handler_rests (env : Env) (r : Request TryClaimIn) :
    (tryClaimHandler env r).Rests
      (fun a call resp => call.OnSql ((Answer.reply a).Stated r.path) resp)
      Reply.Silent := by
  unfold tryClaimHandler
  cases hreq : tryClaimRequest env r with
  | error reply =>
      obtain ⟨status, message, rfl⟩ := try_claim_request_error hreq
      trivial
  | ok c => exact claim_job_rests (try_claim_task_id hreq)

/-- `finishHandler` says nothing about the row of a job. -/
theorem finish_handler_silent {W : Reply → (c : Call) → c.Response → Prop} (env : Env)
    (ns : String) (r : Request FinishIn) : (finishHandler env ns r).Rests W Reply.Silent := by
  unfold finishHandler
  cases hreq : finishRequest env r with
  | error reply =>
      obtain ⟨status, message, rfl⟩ := finish_request_error hreq
      trivial
  | ok c =>
      refine Prog.rests_bind (fun result => ?_) _
      cases result with
      | error e => trivial
      | ok _ =>
          refine Prog.rests_bind (fun _ => ?_) _
          trivial

/-- Nor does `heartbeatHandler`. -/
theorem heartbeat_handler_silent {W : Reply → (c : Call) → c.Response → Prop} (env : Env)
    (r : Request HbIn) : (heartbeatHandler env r).Rests W Reply.Silent := by
  unfold heartbeatHandler
  cases hreq : heartbeatRequest env r with
  | error reply =>
      obtain ⟨status, message, rfl⟩ := heartbeat_request_error hreq
      trivial
  | ok c =>
      refine Prog.rests_bind (fun result => ?_) _
      cases result with
      | error e => trivial
      | ok _ =>
          refine Prog.rests_bind (fun _ => ?_) _
          trivial

/-- Nor does `releaseHandler`. -/
theorem release_handler_silent {W : Reply → (c : Call) → c.Response → Prop} (env : Env)
    (r : Request ReleaseIn) : (releaseHandler env r).Rests W Reply.Silent := by
  unfold releaseHandler
  cases hreq : releaseRequest env r with
  | error reply =>
      obtain ⟨status, message, rfl⟩ := release_request_error hreq
      trivial
  | ok c =>
      refine Prog.rests_bind (fun cur => ?_) _
      split
      · trivial
      · split
        · trivial
        · refine Prog.rests_bind (fun _ => ?_) _
          trivial

/-- Nor does `forceRequeueHandler`. -/
theorem force_requeue_silent {W : Reply → (op : Site.Op) → op.Response → Prop} (env : Env)
    (r : Request Unit) : (forceRequeueHandler env r).Rests W Reply.Silent := by
  unfold forceRequeueHandler
  split
  · trivial
  · split
    · trivial
    · refine Prog.rests_bind (fun now => Prog.rests_bind (fun st => ?_) _) _
      split
      · trivial
      · refine Prog.rests_bind (fun _ => Prog.rests_bind (fun result => ?_) _) _
        cases result with
        | some e => trivial
        | none =>
            refine Prog.rests_bind (fun _ => ?_) _
            trivial

/-- Nor does `manifestHandler`. -/
theorem manifest_handler_silent {W : Reply → (op : Site.Op) → op.Response → Prop} (cfg : Config)
    (r : Request ManifestIn) : (manifestHandler cfg r).Rests W Reply.Silent := by
  unfold manifestHandler
  cases hreq : manifestRequest cfg r with
  | error reply =>
      obtain ⟨status, message, rfl⟩ := manifest_request_error hreq
      trivial
  | ok accepted =>
      refine Prog.rests_bind (fun updatedAt => Prog.rests_bind (fun result => ?_) _) _
      cases result with
      | some e => trivial
      | none =>
          refine Prog.rests_bind (fun now => Prog.rests_bind (fun result => ?_) _) _
          cases result with
          | some e => trivial
          | none =>
              refine Prog.rests_bind (fun result => ?_) _
              cases result with
              | error e => trivial
              | ok _ =>
                  refine Prog.rests_bind (fun _ => ?_) _
                  trivial

/-- A creation is answered when its statement was. -/
theorem create_task_handler_rests (env : Env) (ns path : String) (r : Request CreateTaskReq) :
    (createTaskHandler env ns r).Rests
      (fun a op resp => op.OnSql ((Answer.create a).Stated path) resp)
      (fun a => (Answer.create a).Silent) := by
  unfold createTaskHandler
  cases hreq : createTaskRequest env r with
  | error reply =>
      obtain ⟨status, message, rfl⟩ := create_task_request_error hreq
      trivial
  | ok req =>
      refine Prog.rests_bind (fun now => ?_) _
      intro response
      cases response with
      | error e => exact .inl trivial
      | ok n =>
          -- every reply that follows is an error, or names the job of the statement
          have hcreated : (Answer.create (.created req.id)).Stated path
              (.createJob ⟨req.id, req.image, req.command, .queued, now, 0⟩) (.ok n) :=
            ⟨rfl, n, rfl⟩
          show (publishTask ns req now).Rests _ _
          refine Prog.rests_bind (fun result => ?_) _
          cases result with
          | some e => exact .inl trivial
          | none =>
              refine Prog.rests_bind (fun result => ?_) _
              cases result with
              | some e => exact .inl trivial
              | none =>
                  refine Prog.rests_bind (fun result => ?_) _
                  cases result with
                  | some e => exact .inl trivial
                  | none =>
                      refine Prog.rests_bind (fun _ => ?_) _
                      exact .inr hcreated

/-- `getTaskHandler` reports the row that its statement returned. -/
theorem get_task_handler_rests (env : Env) (path : String) (r : Request Unit) :
    (getTaskHandler env r).Rests
      (fun a op resp => op.OnSql (a.Stated path) resp) Answer.Silent := by
  unfold getTaskHandler
  split
  · trivial
  · split
    · trivial
    · dsimp only
      split
      · trivial
      · intro response
        rcases response with e | _ | job
        · exact .inl trivial
        · exact .inl trivial
        · show (reportTask _ job).Rests _ _
          refine Prog.rests_bind (fun man => ?_) _
          exact .inr ⟨job, _, rfl, rfl⟩

end Handlers

/-- Every answer about the row of a job rests on a statement of its own request. -/
theorem serve_rests (cfg : Config) (r : Incoming) :
    (serve cfg r).Rests (fun a op resp => op.OnSql (a.Stated r.path) resp)
      Answer.Silent := by
  unfold serve
  cases mountHTTP r.method r.path with
  | redirect | error => trivial
  | handler h =>
      cases h with
      | health => trivial
      | listTasks =>
          show (listTasksHandler cfg.env r.query r.bodiless).Rests _ _
          unfold listTasksHandler
          split
          · trivial
          · split
            · trivial
            · refine Prog.rests_bind (fun result => ?_) _
              cases result <;> trivial
      | createTask =>
          have hcreate := create_task_handler_rests cfg.env cfg.ns r.path (r.request Body.create)
          exact (Server.lift_rests hcreate).map
      | tryClaim =>
          have hclaim := try_claim_handler_rests cfg.env (r.request Body.tryClaim)
          exact Server.reply_rests (lift_rests hclaim)
      | heartbeat => exact Server.reply_rests (lift_rests (heartbeat_handler_silent _ _))
      | release => exact Server.reply_rests (lift_rests (release_handler_silent _ _))
      | logs =>
          show (logsHandler cfg.env r.bodiless).Rests _ _
          unfold logsHandler
          split
          · trivial
          · refine Prog.rests_bind (fun result => ?_) _
            cases result with
            | error e => trivial
            | ok endpoint =>
                refine Prog.rests_bind (fun now => Prog.rests_bind (fun issued => ?_) _) _
                refine Prog.rests_bind (fun _ => ?_) _
                trivial
      | getTask => exact Server.lift_rests (get_task_handler_rests cfg.env r.path _)
      | stats =>
          show (statsHandler cfg.env r.bodiless).Rests _ _
          unfold statsHandler
          split
          · trivial
          · refine Prog.rests_bind (fun result => ?_) _
            cases result <;> trivial
      | manifest => exact Server.reply_rests (manifest_handler_silent cfg _)
      | finish => exact Server.reply_rests (lift_rests (finish_handler_silent _ _ _))
      | debugLease =>
          refine Server.lift_rests (lift_rests ?_)
          unfold debugLeaseHandler
          split
          · trivial
          · refine Prog.rests_bind (fun st => Prog.rests_bind (fun le => ?_) _) _
            trivial
      | forceRequeue => exact Server.reply_rests (force_requeue_silent cfg.env _)

/-- A step on which a condition on statements holds sends such a statement. -/
theorem Server.statement_of_on_sql {W : (s : Stmt) → s.Response → Prop} {e : Server.Event}
    (h : e.call.OnSql W e.response) :
    ∃ statement, e.statement = some statement ∧ W statement.call statement.response := by
  obtain ⟨call, input, response⟩ := e
  cases call with
  | site op =>
      cases op with
      | base c =>
          cases c with
          | sql stmt => exact ⟨⟨stmt, input.toInput, response⟩, rfl, h⟩
          | getJSON | putJSON | delJSON | timeNow | enqueue => exact h.elim
      | key | putJSON | intn | listQueued | announced => exact h.elim
  | listPaged | countByStatus | ws | wsToken | receive | process => exact h.elim

section Answered

variable {τ : Type} [DecidableEq τ] {cfg : Config} {interval : Duration}
  {earlier : List Store.Event} {p q : Server.Running τ} {history : List (τ × Server.Event)}

/-- The answer to a request is silent, or a statement of the request made it so. -/
theorem answered_statement (hexec : Execution (Pool.Step Server.effect) p history q) {i : τ}
    {r : Incoming} {answer : Answer} (hstart : p.thread i = (Work.request r).code cfg interval)
    (hanswer : q.thread i = .done (some answer)) (hspeaks : ¬ answer.Silent) :
    ∃ e statement, (i, e) ∈ history ∧ e.statement = some statement ∧
      answer.Stated r.path statement.call statement.response := by
  have hrests : ((Work.request r).code cfg interval).Rests
      (fun a op resp => a.elim False fun a => op.OnSql (a.Stated r.path) resp)
      (fun a => a.elim True Answer.Silent) :=
    Prog.Rests.map (serve_rests cfg r)
  rw [← hstart] at hrests
  rcases Pool.rests hexec hanswer hrests with hsilent | ⟨e, he, hstated⟩
  · exact absurd hsilent hspeaks
  · obtain ⟨statement, hstatement, hwhat⟩ := Server.statement_of_on_sql hstated
    exact ⟨e, statement, he, hstatement, hwhat⟩

/-- What the control server does to the database it does by its statements. -/
theorem Server.execution_statements (hexec : Execution (Pool.Step Server.effect) p history q) :
    Execution Store.Step p.shared.site.world.db (statements history) q.shared.site.world.db := by
  refine (Pool.shared_execution hexec).simulate (I := fun _ => True) (fun s => s.site.world.db)
    (fun l => Server.Event.statement l.2) trivial (fun _ _ _ _ _ => trivial) ?_ ?_
  · intro s l s' statement _ hstep hsome
    have hstatement := Server.statement_step hstep
    rwa [hsome] at hstatement
  · intro s l s' _ hstep hnone
    have hsame := Server.statement_step hstep
    rwa [hnone] at hsame

omit [DecidableEq τ] in
/-- The statement of a step is one of those of the history. -/
theorem mem_statements {i : τ} {e : Server.Event} {statement : Store.Event}
    (he : (i, e) ∈ history) (hstatement : e.statement = some statement) :
    statement ∈ statements history :=
  List.mem_filterMap.mpr ⟨(i, e), he, hstatement⟩

end Answered

/-! ## Rows between two statements -/

/-- What stays of a row: its job, and that it has ended. -/
structure Continues (row row' : Row) : Prop where
  image : row'.image = row.image
  command : row'.command = row.command
  terminal : row.status.Terminal → row'.status.Terminal

/-- Rows are never deleted, and go on as they were. -/
theorem row_continues {db db' : DemandJobs} {later : List Store.Event} {id : String} {row : Row}
    (hsound : Store.Sound db) (hrow : db.lookup id = some row)
    (hlater : Execution Store.Step db later db') :
    ∃ row', db'.lookup id = some row' ∧ Continues row row' := by
  -- the job is fixed by every single statement; a row that has ended is one for good
  have hjob : ∃ row', db'.lookup id = some row' ∧ row'.image = row.image ∧
      row'.command = row.command := by
    refine hlater.invariant (I := fun db => ∃ row', db.lookup id = some row' ∧
      row'.image = row.image ∧ row'.command = row.command) ⟨row, hrow, rfl, rfl⟩ ?_
    rintro s e s' ⟨row', hrow', himage, hcommand⟩ hstep
    have hnext := row_step hstep id
    rw [hrow'] at hnext
    generalize s'.lookup id = new at hnext
    cases hnext with
    | idle => exact ⟨row', rfl, himage, hcommand⟩
    | attach | claim | renew | finish | requeue => exact ⟨_, rfl, himage, hcommand⟩
  obtain ⟨row', hrow', himage, hcommand⟩ := hjob
  refine ⟨row', hrow', himage, hcommand, fun hterminal => ?_⟩
  obtain ⟨row'', hrow'', hended⟩ := ended_of_ended hlater hrow ⟨hsound id row hrow, hterminal, rfl⟩
  rw [hrow'] at hrow''
  cases hrow''
  exact hended.terminal

/-- A `CreateJob` that was answered leaves a row. -/
theorem row_of_create {db db' : DemandJobs} {job : DBJob} {input : Store.Input} {n : ℕ}
    (hstep : Store.Step db ⟨.createJob job, input, .ok n⟩ db') :
    ∃ row, db'.lookup job.id = some row := by
  have hfault : input.fault = none := fault_none_of_ok hstep rfl
  have heffect : Store.effect (.createJob job) input db = (.ok n, db') := hstep
  simp only [Store.effect, hfault, Stmt.exec] at heffect
  rw [← (Prod.mk.inj heffect).2, lookup_insert_new, if_pos rfl]
  exact ⟨_, rfl⟩

/-- A `GetJob` that was answered returned the row of its job, if there is one. -/
theorem row_of_get {db db' : DemandJobs} {id : String} {input : Store.Input}
    {found : Option DBJob} (hstep : Store.Step db ⟨.getJob id, input, .ok found⟩ db') :
    db' = db ∧ found = (db.lookup id).map (Stmt.selectJob id) := by
  have hfault : input.fault = none := fault_none_of_ok hstep rfl
  have heffect : Store.effect (.getJob id) input db = (.ok found, db') := hstep
  simp only [Store.effect, hfault, Stmt.exec] at heffect
  obtain ⟨hfound, hdb⟩ := Prod.mk.inj heffect
  exact ⟨hdb.symm, (Except.ok.inj hfound).symm⟩

/-! ## What a client is told -/

variable {τ : Type} [DecidableEq τ] {cfg : Config} {interval : Duration} {work : τ → Work}
  {s : Server} {earlier : List Store.Event} {before after : List (τ × Server.Event)}
  {p q : Server.Running τ}

/-- The answer tells that the job is there: it was created, or is reported. -/
def Answer.Tells (id : String) : Answer → Prop
  | .create (.created id') => id' = id
  | .task out => out.id = id
  | _ => False

omit [DecidableEq τ] in
/-- Such an answer is not silent. -/
theorem Answer.Tells.speaks {id : String} {a : Answer} (h : a.Tells id) : ¬ a.Silent := by
  intro hsilent
  cases a with
  | create reply =>
      cases reply with
      | error => exact h
      | created => exact hsilent
  | task => exact hsilent
  | reply | redirect | health | tasks | stats | logs | lease => exact h

/-- The request asks for the job, and passes the checks of `getTaskHandler`. -/
structure Reads (cfg : Config) (r : Incoming) (id : String) : Prop where
  route : mountHTTP r.method r.path = .handler .getTask
  auth : requireAuth cfg.env r.bodiless = true
  method : r.method = "GET"
  path : trimPrefix r.path "/api/tasks/" = id
  nonempty : id ≠ ""

/-- The handler of such a request. -/
theorem Reads.serve_eq {r : Incoming} {id : String} (h : Reads cfg r id) :
    serve cfg r = Server.lift (getTask id) := by
  have hget : getTaskHandler cfg.env r.bodiless = getTask id := by
    unfold getTaskHandler
    have hmethod : r.bodiless.method = "GET" := h.method
    have hpath : trimPrefix r.bodiless.path "/api/tasks/" = id := h.path
    rw [if_neg (by simp [h.auth]), if_neg (by simp [hmethod])]
    dsimp only
    rw [hpath, if_neg h.nonempty]
  unfold serve
  rw [h.route]
  show Server.lift (getTaskHandler cfg.env r.bodiless) = _
  rw [hget]

omit [DecidableEq τ] in
/-- The work of a request at the start. -/
theorem server_thread {i : τ} {r : Incoming} (hi : work i = .request r) :
    (server cfg interval work s).thread i = (Work.request r).code cfg interval := by
  show (work i).code cfg interval = _
  rw [hi]

/-- What a client was told of a job is in the table, and stays there. -/
theorem told_row (hrun : Store.Run earlier s.site.world.db)
    (hexec : Execution (Pool.Step Server.effect) (server cfg interval work s) before q) {i : τ}
    {r : Incoming} {first : Answer} {id : String} (hi : work i = .request r)
    (hfirst : q.thread i = .done (some first)) (htold : first.Tells id) :
    ∃ row, q.shared.site.world.db.lookup id = some row ∧
      ∀ told, first = .task told → row.image = told.image ∧ row.command = told.command ∧
        (told.status.Terminal → row.status.Terminal) := by
  obtain ⟨e, statement, he, hstatement, hstated⟩ :=
    answered_statement hexec (server_thread hi) hfirst htold.speaks
  obtain ⟨first', rest, hsplit⟩ := List.append_of_mem (mem_statements he hstatement)
  have hall := Server.execution_run hrun hexec
  rw [hsplit, ← List.append_assoc] at hall
  obtain ⟨db, db', hdb, hstep, hlater⟩ := hall.split_at
  have hsound : Store.Sound db := Store.Run.sound hdb
  have hsound' : Store.Sound db' := hsound.step hstep
  obtain ⟨stmt, input, response⟩ := statement
  cases first with
  | create reply =>
      cases reply with
      | error => exact htold.elim
      | created id' =>
          obtain rfl : id' = id := htold
          cases stmt with
          | createJob job =>
              obtain ⟨rfl, n, rfl⟩ := hstated
              obtain ⟨row, hrow⟩ := row_of_create hstep
              obtain ⟨row', hrow', -⟩ := row_continues hsound' hrow hlater
              exact ⟨row', hrow', fun _ htask => (by cases htask)⟩
          | getJob | attachManifest | tryClaim | claimRefusal | heartbeat | finish
          | listExpiredLeases | setStatusQueued => exact hstated.elim
  | task out =>
      obtain rfl : out.id = id := htold
      cases stmt with
      | getJob id' =>
          obtain ⟨job, man, rfl, rfl⟩ := hstated
          obtain ⟨rfl, hfound⟩ := row_of_get hstep
          obtain ⟨row, hrow, rfl⟩ := Option.map_eq_some_iff.mp hfound.symm
          obtain ⟨row', hrow', hcont⟩ := row_continues hsound hrow hlater
          refine ⟨row', hrow', fun told htask => ?_⟩
          cases htask
          exact ⟨hcont.image, hcont.command, hcont.terminal⟩
      | createJob | attachManifest | tryClaim | claimRefusal | heartbeat | finish
      | listExpiredLeases | setStatusQueued => exact hstated.elim
  | reply | redirect | health | tasks | stats | logs | lease => exact htold.elim

omit [DecidableEq τ] in
/-- `getTaskHandler` answers by what its statement `GetJob` returned. -/
theorem get_task_ends {id : String} {events : List Server.Event} {answer : Answer}
    (h : (Server.lift (getTask id)).Ends events answer) :
    ∃ input response,
      (⟨.site (.base (.sql (.getJob id))), input, response⟩ : Server.Event) ∈ events ∧
      (∀ fault, response = .error fault → answer = .error 404 "not found") ∧
      ∀ job, response = .ok (some job) →
        ∃ man, answer = .task ⟨job.id, job.image, job.command, job.status, man⟩ := by
  cases h with
  | call input response hrest =>
      refine ⟨input, response, List.mem_cons_self, ?_, ?_⟩
      · rintro fault rfl
        have hrefuse : (Server.lift (pure (Answer.error 404 "not found"))).Rests
            (fun _ op (_ : op.Response) => False) (· = Answer.error 404 "not found") := rfl
        rcases Prog.Ends.rests hrest hrefuse with hvalue | ⟨_, _, hnever⟩
        · exact hvalue
        · exact hnever.elim
      · rintro job rfl
        have hreport : (Server.lift (reportTask id job)).Rests
            (fun _ op (_ : op.Response) => False)
            (fun a => ∃ man, a = .task ⟨job.id, job.image, job.command, job.status, man⟩) := by
          refine Prog.Rests.embed (W := fun _ _ _ => False) ?_ fun _ _ _ hnever => hnever
          refine Prog.rests_bind (fun man => ?_) _
          exact ⟨_, rfl⟩
        rcases Prog.Ends.rests hrest hreport with hman | ⟨_, _, hnever⟩
        · exact hman
        · exact hnever.elim

/-- A request that asks for a job in the table is told of it, or its `GetJob` failed and it is told
that there is no such job. -/
theorem read_row
    (hsound : Store.Sound q.shared.site.world.db)
    (hexec : Execution (Pool.Step Server.effect) q after p) {j : τ} {r : Incoming}
    {answer : Answer} {id : String} {row : Row} (hreads : Reads cfg r id)
    (hrow : q.shared.site.world.db.lookup id = some row)
    (hstart : q.thread j = (Work.request r).code cfg interval)
    (hanswer : p.thread j = .done (some answer)) :
    (answer = .error 404 "not found" ∧ ∃ e input fault, (j, e) ∈ after ∧
      e.statement = some ⟨.getJob id, input, .error fault⟩) ∨
    ∃ row' man, Continues row row' ∧
      answer = .task ⟨id, row'.image, row'.command, row'.status, man⟩ := by
  have hends := Pool.ends hexec hanswer
  rw [hstart] at hends
  unfold Work.code at hends
  dsimp only at hends
  rw [hreads.serve_eq] at hends
  obtain ⟨value, hends, hvalue⟩ := hends.of_map
  cases hvalue
  obtain ⟨input, response, hown, hrefused, hreported⟩ := get_task_ends hends
  have hmem := Pool.mem_own.mp hown
  cases response with
  | error fault => exact .inl ⟨hrefused fault rfl, _, _, fault, hmem, rfl⟩
  | ok found =>
      -- the statement found the row as it was then
      have hsent : (⟨.getJob id, input.toInput, .ok found⟩ : Store.Event) ∈ statements after :=
        mem_statements hmem rfl
      obtain ⟨first, rest, hsplit⟩ := List.append_of_mem hsent
      have hall := Server.execution_statements hexec
      rw [hsplit] at hall
      obtain ⟨db, db', hbefore, hstep, -⟩ := hall.split_at
      obtain ⟨row', hrow', hcont⟩ := row_continues hsound hrow hbefore
      obtain ⟨-, hfound⟩ := row_of_get hstep
      rw [hrow', Option.map_some] at hfound
      obtain ⟨man, hman⟩ := hreported _ (congrArg Except.ok hfound)
      exact .inr ⟨row', man, hcont, hman⟩

/-- What a client was told of a job holds of every later report. Once an answer said that the job
was created, or reported it, every request for the job that the control server receives afterwards
and answers finds it, whatever else the server is doing, unless its own `GetJob` fails, which
`getTaskHandler` reports as a job that is not there. A job that was reported is found with the image
and the command that were reported, and as one that has ended if it was reported so; that it was
created says nothing about them, as the id may have been taken by another job. -/
theorem reads_monotone (hrun : Store.Run earlier s.site.world.db)
    (hbefore : Execution (Pool.Step Server.effect) (server cfg interval work s) before q)
    (hafter : Execution (Pool.Step Server.effect) q after p) {i j : τ} {r r' : Incoming}
    {first answer : Answer} {id : String} (hi : work i = .request r)
    (hfirst : q.thread i = .done (some first)) (htold : first.Tells id)
    (hstart : q.thread j = (Work.request r').code cfg interval) (hreads : Reads cfg r' id)
    (hanswer : p.thread j = .done (some answer)) :
    (answer = .error 404 "not found" ∧ ∃ e input fault, (j, e) ∈ after ∧
      e.statement = some ⟨.getJob id, input, .error fault⟩) ∨
    ∃ out, answer = .task out ∧ out.id = id ∧ ∀ told, first = .task told →
      out.image = told.image ∧ out.command = told.command ∧
        (told.status.Terminal → out.status.Terminal) := by
  obtain ⟨row, hrow, hsame⟩ := told_row hrun hbefore hi hfirst htold
  have hsound : Store.Sound q.shared.site.world.db :=
    Store.Run.sound (Server.execution_run hrun hbefore)
  refine (read_row hsound hafter hreads hrow hstart hanswer).imp_right ?_
  rintro ⟨row', man, hcont, rfl⟩
  refine ⟨_, rfl, rfl, fun told htask => ?_⟩
  obtain ⟨himage, hcommand, hterminal⟩ := hsame told htask
  exact ⟨hcont.image.trans himage, hcont.command.trans hcommand,
    fun hended => hcont.terminal (hterminal hended)⟩

namespace Sample

/-- A request for the sample job. -/
def asked : Incoming := { sent "/api/tasks/job" with method := "GET" }

/-- The sample job is created and asked for. -/
def createdAndAsked (i : ℕ) : Work :=
  if i = 0 then .request (sent "/api/tasks") else .request asked

/-- The control server once the job is created. -/
def justCreated : List (ℕ × Server.Event) × Server.Running ℕ :=
  Server.after setup (3 * second) createdAndAsked (List.replicate 12 (0, fair 0)) blank

/-- The control server once the job was asked for. -/
def thenAsked : List (ℕ × Server.Event) × Server.Running ℕ :=
  Pool.schedule Server.effect (List.replicate 3 (1, fair 0)) justCreated.2

theorem asked_reads : Reads setup asked "job" := ⟨rfl, rfl, rfl, rfl, by decide⟩

end Sample

/-- The sample job is found by the request that asks for it. -/
theorem reads_monotone_created :
    ∃ out, Sample.thenAsked.2.thread 1 = .done (some (.task out)) ∧ out.id = "job" := by
  have hasked : ∃ out, Sample.thenAsked.2.thread 1 = .done (some (.task out)) := ⟨_, rfl⟩
  obtain ⟨out, hanswer⟩ := hasked
  have hread := @reads_monotone ℕ _ Sample.setup (3 * second)
    Sample.createdAndAsked Sample.blank [] _ _ _ _ .refl (Pool.schedule_execution _ _ _)
    (Pool.schedule_execution Server.effect (List.replicate 3 (1, Sample.fair 0)) _) 0 1 _
    Sample.asked (.create (.created "job")) (.task out) "job" rfl rfl rfl rfl Sample.asked_reads
    hanswer
  rcases hread with ⟨hrefused, -⟩ | ⟨out', hsame, hid, -⟩
  · cases hrefused
  · cases hsame
    exact ⟨out, hanswer, hid⟩

/-! ## The tokens that clients are given -/

/-- A claim that was answered with a lease was granted its token by a statement of its own. -/
theorem granted_statement (hexec : Execution (Pool.Step Server.effect) q after p) {i : τ}
    {r : Incoming} {lease : TaskLease} {id : String}
    (hstart : q.thread i = (Work.request r).code cfg interval)
    (hanswer : p.thread i = .done (some (.reply (.leaseOut true lease))))
    (hid : Handler.tryClaim.taskID r.path = some id) :
    ∃ e agentID ttl input t expiry, (i, e) ∈ after ∧
      e.statement = some ⟨.tryClaim id agentID ttl, input, .ok (some (t, expiry))⟩ ∧
      lease.version = int64 (uint64 t) := by
  obtain ⟨e, ⟨stmt, input, response⟩, he, hstatement, hstated⟩ :=
    answered_statement hexec hstart hanswer fun hsilent => hsilent
  cases stmt with
  | tryClaim id' agentID ttl =>
      obtain ⟨hid', t, expiry, rfl, hlease⟩ := hstated
      obtain rfl : id' = id := Option.some.inj (hid'.symm.trans hid)
      exact ⟨e, agentID, ttl, input, t, expiry, he, hstatement, by rw [hlease]⟩
  | createJob | getJob | attachManifest | claimRefusal | heartbeat | finish | listExpiredLeases
  | setStatusQueued => exact hstated.elim

omit [DecidableEq τ] in
/-- The token of a later grant is larger. -/
theorem granted_lt {first middle rest : List Store.Event} {db : DemandJobs}
    {id agentID agentID' : String} {ttl ttl' : Duration} {input input' : Store.Input} {t t' : Int}
    {expiry expiry' : Time}
    (hrun : Store.Run (first ++ ⟨.tryClaim id agentID ttl, input, .ok (some (t, expiry))⟩ ::
      (middle ++ ⟨.tryClaim id agentID' ttl', input', .ok (some (t', expiry'))⟩ :: rest)) db) :
    int64 (uint64 t) < int64 (uint64 t') := by
  obtain ⟨db₁, db₂, hfirst, hgrant, hlater⟩ := hrun.split_at
  obtain ⟨db₃, db₄, hmiddle, hgrant', -⟩ := hlater.split_at
  have hsound₁ : Store.Sound db₁ := Store.Run.sound hfirst
  have hsound₂ : Store.Sound db₂ := hsound₁.step hgrant
  have hsound₃ : Store.Sound db₃ :=
    hmiddle.invariant hsound₂ fun _ _ _ hsound hstep => hsound.step hstep
  obtain ⟨row, row', -, hrow', hpos, ht, hlt, htoken⟩ := row_of_claim hsound₁ hgrant
  obtain ⟨old, _, hold, -, hpos', ht', hlt', -⟩ := row_of_claim hsound₃ hgrant'
  obtain ⟨kept, hkept, hle⟩ := token_mono hmiddle hsound₂ hrow'
  obtain rfl : kept = old := Option.some.inj (hkept.symm.trans hold)
  rw [int64_uint64 (by omega) hlt, int64_uint64 (by omega) hlt']
  omega

/-- A grant in the history comes before one further on in it. -/
theorem granted_lt_of_split (hrun : Store.Run earlier s.site.world.db)
    {first rest : List (τ × Server.Event)} {l : τ × Server.Event}
    (hexec : Execution (Pool.Step Server.effect) (server cfg interval work s)
      (first ++ l :: rest) p) {j : τ} {e : Server.Event} (he : (j, e) ∈ rest)
    {id agentID agentID' : String} {ttl ttl' : Duration} {input input' : Store.Input} {t t' : Int}
    {expiry expiry' : Time}
    (hgrant : l.2.statement =
      some ⟨.tryClaim id agentID ttl, input, .ok (some (t, expiry))⟩)
    (hgrant' : e.statement =
      some ⟨.tryClaim id agentID' ttl', input', .ok (some (t', expiry'))⟩) :
    int64 (uint64 t) < int64 (uint64 t') := by
  have hall := Server.execution_run hrun hexec
  obtain ⟨middle, last, hsplit⟩ := List.append_of_mem (mem_statements he hgrant')
  have hstatements : statements (first ++ l :: rest) = statements first ++
      ⟨.tryClaim id agentID ttl, input, .ok (some (t, expiry))⟩ :: statements rest := by
    unfold statements
    rw [List.filterMap_append, List.filterMap_cons]
    simp only [hgrant]
  rw [hstatements, hsplit, ← List.append_assoc] at hall
  exact granted_lt hall

/-- No two clients are given the same token. In every run of the control server, two requests that
were answered with a lease of one job were answered with different tokens, however they overlapped
with each other and with the rest; and when the one had its answer before the server got to the
other, the second token is the larger one. -/
theorem grants_ordered (hrun : Store.Run earlier s.site.world.db)
    (hbefore : Execution (Pool.Step Server.effect) (server cfg interval work s) before q)
    (hafter : Execution (Pool.Step Server.effect) q after p) {i j : τ} (hij : i ≠ j)
    {r r' : Incoming} {lease lease' : TaskLease} {id : String} (hi : work i = .request r)
    (hj : work j = .request r') (hid : Handler.tryClaim.taskID r.path = some id)
    (hid' : Handler.tryClaim.taskID r'.path = some id)
    (hanswer : p.thread i = .done (some (.reply (.leaseOut true lease))))
    (hanswer' : p.thread j = .done (some (.reply (.leaseOut true lease')))) :
    lease.version ≠ lease'.version ∧
      (q.thread i = .done (some (.reply (.leaseOut true lease))) →
        q.thread j = (work j).code cfg interval → lease.version < lease'.version) := by
  have hexec := hbefore.trans hafter
  obtain ⟨e, agentID, ttl, input, t, expiry, he, hgrant, hversion⟩ :=
    granted_statement hexec (server_thread hi) hanswer hid
  obtain ⟨e', agentID', ttl', input', t', expiry', he', hgrant', hversion'⟩ :=
    granted_statement hexec (server_thread hj) hanswer' hid'
  constructor
  · -- the two grants are different places of the history
    rw [hversion, hversion']
    obtain ⟨first, rest, hsplit⟩ := List.append_of_mem he
    rw [hsplit] at he' hexec
    rcases List.mem_append.mp he' with hearlier | hlater
    · obtain ⟨first', middle, rfl⟩ := List.append_of_mem hearlier
      rw [List.append_assoc, List.cons_append] at hexec
      have hrest : (i, e) ∈ middle ++ (i, e) :: rest :=
        List.mem_append_right _ List.mem_cons_self
      exact (granted_lt_of_split hrun hexec hrest hgrant' hgrant).ne'
    · have hrest : (j, e') ∈ rest := by
        rcases List.mem_cons.mp hlater with hsame | hrest
        · exact absurd (congrArg Prod.fst hsame).symm hij
        · exact hrest
      exact (granted_lt_of_split hrun hexec hrest hgrant hgrant').ne
  · intro hdone hstart
    rw [hj] at hstart
    obtain ⟨e, _, _, _, _, _, hfirst, hgrant, hversion⟩ :=
      granted_statement hbefore (server_thread hi) hdone hid
    obtain ⟨e', _, _, _, _, _, hsecond, hgrant', hversion'⟩ :=
      granted_statement hafter hstart hanswer' hid'
    obtain ⟨first, rest, rfl⟩ := List.append_of_mem hfirst
    rw [List.append_assoc, List.cons_append] at hexec
    rw [hversion, hversion']
    exact granted_lt_of_split hrun hexec (List.mem_append_right rest hsecond) hgrant hgrant'

namespace Sample

/-- The control server on a table with the sample job. -/
def stocked : Server :=
  { blank with site.world.db := (Store.play [(.createJob Store.Sample.job, { now := 1 })]).2 }

/-- Two claims with a tick of the requeue loop between them. -/
def claimedTwice (i : Fin 3) : Work :=
  if i = 1 then .requeue else .request (sent "/api/tasks/job/try-claim")

/-- The second claim comes when the lease of the first one has lapsed. -/
def claimsInTurn : List (Fin 3 × Server.Event) × Server.Running (Fin 3) :=
  Server.after setup (3 * second) claimedTwice
    (List.replicate 5 (0, fair 0) ++ List.replicate 8 (1, fair (19 * second)) ++
      List.replicate 5 (2, fair (20 * second))) stocked

end Sample

/-- The sample job is claimed, let lapse, and claimed again, and there are two tokens. -/
theorem grants_ordered_in_turn :
    ∃ lease lease' : TaskLease,
      Sample.claimsInTurn.2.thread 0 = .done (some (.reply (.leaseOut true lease))) ∧
      Sample.claimsInTurn.2.thread 2 = .done (some (.reply (.leaseOut true lease'))) ∧
      lease.version ≠ lease'.version := by
  have hexec : Execution (Pool.Step Server.effect)
      (server Sample.setup (3 * second) Sample.claimedTwice Sample.stocked)
      Sample.claimsInTurn.1 Sample.claimsInTurn.2 := Pool.schedule_execution _ _ _
  have hfirst : ∃ lease, Sample.claimsInTurn.2.thread 0 =
      .done (some (.reply (.leaseOut true lease))) := ⟨_, rfl⟩
  have hsecond : ∃ lease, Sample.claimsInTurn.2.thread 2 =
      .done (some (.reply (.leaseOut true lease))) := ⟨_, rfl⟩
  obtain ⟨lease, hlease⟩ := hfirst
  obtain ⟨lease', hlease'⟩ := hsecond
  have hrun : Store.Run (Store.play [(.createJob Store.Sample.job, { now := 1 })]).1
      Sample.stocked.site.world.db := Store.play_run _
  have hwork : ∀ i : Fin 3, i ≠ 1 →
      Sample.claimedTwice i = .request (Sample.sent "/api/tasks/job/try-claim") :=
    fun i hi => if_neg hi
  have hpath : Handler.tryClaim.taskID (Sample.sent "/api/tasks/job/try-claim").path =
      some "job" := rfl
  have hgrants := grants_ordered hrun hexec .refl (by decide) (hwork 0 (by decide))
    (hwork 2 (by decide)) hpath hpath hlease hlease'
  exact ⟨lease, lease', hlease, hlease', hgrants.1⟩

end MutualCloud.Control
