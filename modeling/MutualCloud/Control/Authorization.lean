import MutualCloud.Control.Retries

/-!
# Requests without the token

Every handler but `healthHandler` calls `requireAuth` before anything else, and `requireAuth` lets
nobody in but those who carry `CONTROL_TOKEN`, unless `MC_DISABLE_AUTH` is 1. So strangers do not
interfere: on whatever routes their requests come and however many they are, the control server runs
as if they had not been sent (`strangers_do_not_interfere`).
-/

namespace MutualCloud.Control

open Go Interaction Labelled

/-! ## The check of each handler -/

/-- `requireAuth` lets nobody in without the token. -/
theorem require_auth_eq_false {β : Type} {env : Env} {r : Request β} (hauth : env.disableAuth ≠ "1")
    (h : env.controlToken = "" ∨ r.header "Authorization" ≠ "Bearer " ++ env.controlToken) :
    requireAuth env r = false := by
  unfold requireAuth
  rw [if_neg hauth]
  split
  · rfl
  · next hset => exact decide_eq_false (h.resolve_left hset)

section Handlers

variable {env : Env}

theorem list_tasks_unauthorized {query : String → String} {r : Request Unit}
    (h : requireAuth env r = false) :
    listTasksHandler env query r = .done (.error 401 "unauthorized") := by
  unfold listTasksHandler
  rw [h]
  rfl

theorem stats_unauthorized {r : Request Unit} (h : requireAuth env r = false) :
    statsHandler env r = .done (.error 401 "unauthorized") := by
  unfold statsHandler
  rw [h]
  rfl

theorem logs_unauthorized {r : Request Unit} (h : requireAuth env r = false) :
    logsHandler env r = .done (.error 401 "unauthorized") := by
  unfold logsHandler
  rw [h]
  rfl

theorem get_task_unauthorized {r : Request Unit} (h : requireAuth env r = false) :
    getTaskHandler env r = .done (.error 401 "unauthorized") := by
  unfold getTaskHandler
  rw [h]
  rfl

theorem debug_lease_unauthorized {r : Request Unit} (h : requireAuth env r = false) :
    debugLeaseHandler env r = .done (.error 401 "unauthorized") := by
  unfold debugLeaseHandler
  rw [h]
  rfl

theorem force_requeue_unauthorized {r : Request Unit} (h : requireAuth env r = false) :
    forceRequeueHandler env r = .done (.error 401 "unauthorized") := by
  unfold forceRequeueHandler
  rw [h]
  rfl

theorem create_task_unauthorized {ns : String} {r : Request CreateTaskReq}
    (h : requireAuth env r = false) :
    createTaskHandler env ns r = .done (.error 401 "unauthorized") := by
  unfold createTaskHandler createTaskRequest
  rw [h]
  rfl

theorem try_claim_unauthorized {r : Request TryClaimIn} (h : requireAuth env r = false) :
    tryClaimHandler env r = .done (.error 401 "unauthorized") := by
  unfold tryClaimHandler tryClaimRequest
  rw [h]
  rfl

theorem heartbeat_unauthorized {r : Request HbIn} (h : requireAuth env r = false) :
    heartbeatHandler env r = .done (.error 401 "unauthorized") := by
  unfold heartbeatHandler heartbeatRequest
  rw [h]
  rfl

theorem release_unauthorized {r : Request ReleaseIn} (h : requireAuth env r = false) :
    releaseHandler env r = .done (.error 401 "unauthorized") := by
  unfold releaseHandler releaseRequest
  rw [h]
  rfl

theorem finish_unauthorized {ns : String} {r : Request FinishIn} (h : requireAuth env r = false) :
    finishHandler env ns r = .done (.error 401 "unauthorized") := by
  unfold finishHandler finishRequest
  rw [h]
  rfl

theorem manifest_unauthorized {cfg : Config} {r : Request ManifestIn}
    (h : requireAuth cfg.env r = false) :
    manifestHandler cfg r = .done (.error 401 "unauthorized") := by
  unfold manifestHandler manifestRequest
  rw [h]
  rfl

end Handlers

/-! ## The requests of strangers -/

/-- The request does not carry the token of the control server, or there is none to carry. -/
def Incoming.Stranger (env : Env) (r : Incoming) : Prop :=
  env.controlToken = "" ∨ r.header "Authorization" ≠ "Bearer " ++ env.controlToken

/-- The answer is the refusal of a handler. -/
def Answer.Unauthorized (a : Answer) : Prop :=
  a = .error 401 "unauthorized" ∨ a = .create (.error 401 "unauthorized")

variable {cfg : Config} {r : Incoming}

/-- Every handler but one refuses a stranger before anything else. -/
theorem handler_unauthorized (hauth : cfg.env.disableAuth ≠ "1") (hr : r.Stranger cfg.env)
    {handler : Handler} (hhealth : handler ≠ .health) :
    ∃ answer, handler.code cfg r = .done answer ∧ answer.Unauthorized := by
  -- the check reads nothing of the body
  have h : ∀ {β : Type} (decode : Body → Except String β),
      requireAuth cfg.env (r.request decode) = false :=
    fun decode => require_auth_eq_false (r := r.request decode) hauth hr
  cases handler with
  | health => exact absurd rfl hhealth
  | createTask =>
      refine ⟨.create (.error 401 "unauthorized"), ?_, .inr rfl⟩
      show (Server.lift (createTaskHandler cfg.env cfg.ns _) >>= _) = _
      rw [create_task_unauthorized (h _)]
      rfl
  | listTasks => exact ⟨_, list_tasks_unauthorized (h _), .inl rfl⟩
  | logs => exact ⟨_, logs_unauthorized (h _), .inl rfl⟩
  | stats => exact ⟨_, stats_unauthorized (h _), .inl rfl⟩
  | getTask => exact ⟨_, congrArg Server.lift (get_task_unauthorized (h _)), .inl rfl⟩
  | debugLease =>
      exact ⟨_, congrArg (Server.lift ∘ Site.lift) (debug_lease_unauthorized (h _)), .inl rfl⟩
  | forceRequeue => exact ⟨_, congrArg Server.reply (force_requeue_unauthorized (h _)), .inl rfl⟩
  | tryClaim =>
      exact ⟨_, congrArg (Server.reply ∘ Site.lift) (try_claim_unauthorized (h _)), .inl rfl⟩
  | heartbeat =>
      exact ⟨_, congrArg (Server.reply ∘ Site.lift) (heartbeat_unauthorized (h _)), .inl rfl⟩
  | release =>
      exact ⟨_, congrArg (Server.reply ∘ Site.lift) (release_unauthorized (h _)), .inl rfl⟩
  | finish =>
      exact ⟨_, congrArg (Server.reply ∘ Site.lift) (finish_unauthorized (h _)), .inl rfl⟩
  | manifest => exact ⟨_, congrArg Server.reply (manifest_unauthorized (h _)), .inl rfl⟩

/-- A stranger is answered at once, and refused wherever a handler other than `healthHandler` gets
the request. -/
theorem serve_stranger (hauth : cfg.env.disableAuth ≠ "1") (hr : r.Stranger cfg.env) :
    ∃ answer, serve cfg r = .done answer ∧ ∀ handler,
      mountHTTP r.method r.path = .handler handler → handler ≠ .health → answer.Unauthorized := by
  unfold serve
  cases hdispatch : mountHTTP r.method r.path with
  | redirect path => exact ⟨_, rfl, fun _ h => (by cases h)⟩
  | error status message => exact ⟨_, rfl, fun _ h => (by cases h)⟩
  | handler handler =>
      by_cases hhealth : handler = .health
      · subst hhealth
        refine ⟨_, rfl, fun _ h hnot => ?_⟩
        cases h
        exact absurd rfl hnot
      · obtain ⟨answer, hcode, hrefused⟩ := handler_unauthorized hauth hr hhealth
        exact ⟨answer, hcode, fun _ _ _ => hrefused⟩

variable {τ : Type} [DecidableEq τ] {interval : Duration} {work : τ → Work} {s : Server}
  {history : List (τ × Server.Event)} {p : Server.Running τ}

/-- The work is the request of a stranger. -/
def Work.OfStranger (env : Env) (w : Work) : Prop :=
  ∃ r, w = .request r ∧ r.Stranger env

/-- A stranger has the answer from the start, and takes no step. -/
theorem stranger_answered (hauth : cfg.env.disableAuth ≠ "1") (hr : r.Stranger cfg.env)
    (hexec : Execution (Pool.Step Server.effect) (server cfg interval work s) history p) {i : τ}
    (hi : work i = .request r) :
    (∀ e, (i, e) ∉ history) ∧ ∃ answer, serve cfg r = .done answer ∧
      p.thread i = .done (some answer) := by
  obtain ⟨answer, hserve, -⟩ := serve_stranger hauth hr
  have hstart : (server cfg interval work s).thread i = .done (some answer) := by
    show (work i).code cfg interval = _
    rw [hi]
    show (serve cfg r >>= _) = _
    rw [hserve]
    rfl
  obtain ⟨hnone, hdone⟩ := Pool.ended hexec hstart
  exact ⟨hnone, answer, hserve, hdone⟩

/-- Strangers do not interfere with the control server. In every run of it, among any other requests
and loops, they are refused by every handler but `healthHandler`, and what they send could be
anything else: the same steps are a run of the server with other requests in place of theirs, or
with none that has begun, which leaves the same database, DHT and announce manager and gives the
others the same answers. -/
theorem strangers_do_not_interfere (hauth : cfg.env.disableAuth ≠ "1")
    (hexec : Execution (Pool.Step Server.effect) (server cfg interval work s) history p) :
    (∀ i r handler, work i = .request r → r.Stranger cfg.env →
      mountHTTP r.method r.path = .handler handler → handler ≠ .health →
      ∃ answer, p.thread i = .done (some answer) ∧ answer.Unauthorized) ∧
    ∀ work' : τ → Work, (∀ i, work' i = work i ∨ (work i).OfStranger cfg.env) →
      ∃ p', Execution (Pool.Step Server.effect) (server cfg interval work' s) history p' ∧
        p'.shared = p.shared ∧ ∀ i, work' i = work i → p'.thread i = p.thread i := by
  constructor
  · intro i r handler hi hr hdispatch hhealth
    obtain ⟨-, answer, hserve, hdone⟩ := stranger_answered hauth hr hexec hi
    obtain ⟨answer', hserve', hrefused⟩ := serve_stranger hauth hr
    cases hserve.symm.trans hserve'
    exact ⟨answer, hdone, hrefused handler hdispatch hhealth⟩
  · intro work' hwork
    have hcode : ∀ i, work' i = work i →
        (server cfg interval work' s).thread i = (server cfg interval work s).thread i :=
      fun i hi => congrArg (Work.code cfg interval) hi
    have hagree : ∀ i,
        (server cfg interval work' s).thread i = (server cfg interval work s).thread i ∨
          ∀ e, (i, e) ∉ history := by
      intro i
      rcases hwork i with hsame | ⟨r, hi, hr⟩
      · exact .inl (hcode i hsame)
      · exact .inr (stranger_answered hauth hr hexec hi).1
    obtain ⟨p', hexec', hshared, hthreads⟩ :=
      Pool.execution_of_agree (q := server cfg interval work' s) hexec rfl hagree
    exact ⟨p', hexec', hshared, fun i hi => hthreads i (hcode i hi)⟩

namespace Sample

/-- A server that asks for a token. -/
def guardedSetup : Config := { setup with env := ⟨"", "token"⟩ }

/-- The sample job is created with the token, and a stranger sends something else. -/
def intruded (w : Work) : Bool → Work
  | true => .request { sent "/api/tasks" with
      header := fun name => if name = "Authorization" then "Bearer token" else "" }
  | false => w

/-- A stranger claims the job while it is created. -/
def intrusion : List (Bool × Server.Event) × Server.Running Bool :=
  Server.after guardedSetup (3 * second) (intruded (.request (sent "/api/tasks/job/try-claim")))
    (List.replicate 6 (true, fair 0) ++ [(false, fair 0)] ++ List.replicate 6 (true, fair 0)) blank

end Sample

/-- The stranger is refused, and the job is created as it is without the claim. -/
theorem strangers_do_not_interfere_claim :
    Sample.intrusion.2.thread true = .done (some (.create (.created "job"))) ∧
    (∃ answer, Sample.intrusion.2.thread false = .done (some answer) ∧ answer.Unauthorized) ∧
    ∃ p', Execution (Pool.Step Server.effect)
        (server Sample.guardedSetup (3 * second) (Sample.intruded .restore) Sample.blank)
        Sample.intrusion.1 p' ∧
      p'.shared = Sample.intrusion.2.shared ∧
      p'.thread true = .done (some (.create (.created "job"))) := by
  have hcreated : Sample.intrusion.2.thread true = .done (some (.create (.created "job"))) := rfl
  have hstranger : (Sample.sent "/api/tasks/job/try-claim").Stranger Sample.guardedSetup.env :=
    .inr (by decide)
  obtain ⟨hrefused, hsame⟩ := strangers_do_not_interfere (by decide)
    (Pool.schedule_execution _ _ _ :
      Execution (Pool.Step Server.effect) _ Sample.intrusion.1 Sample.intrusion.2)
  obtain ⟨p', hexec, hshared, hthreads⟩ := hsame (Sample.intruded .restore) fun i => by
    cases i with
    | true => exact .inl rfl
    | false => exact .inr ⟨_, rfl, hstranger⟩
  exact ⟨hcreated, hrefused false _ .tryClaim rfl hstranger rfl (by decide), p', hexec, hshared,
    (hthreads true rfl).trans hcreated⟩

end MutualCloud.Control
