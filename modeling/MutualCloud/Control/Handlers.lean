import MutualCloud.Control.World
import MutualCloud.Go.Strings

/-!
# The handlers of the control server

`finishHandler`, `tryClaimHandler` and `heartbeatHandler` of `cmd/control/control_http.go`, and
the per-job body of `requeueLoop` of `cmd/control/main.go`. Every handler first checks its
request, without a step on the world, and then acts; the two parts are separate definitions. All
four act in the same way: one method of the store, and after its success reads and writes of the
DHT that nothing synchronises with the steps of other handlers. `HandlerSteps` lists these steps,
for properties that all of them have.
-/

namespace MutualCloud.Control

open Go Interaction Store

/-! ## Requests and replies -/

/-- The environment variables that `requireAuth` reads. -/
structure Env where
  disableAuth : String
  controlToken : String

/-- A request, as far as the handlers look at it. A header that is missing reads as the empty
string, and the body is what the JSON decoder makes of it. -/
structure Request (β : Type) where
  method : String
  path : String
  header : String → String
  body : Except String β

/-- What a handler answers. -/
inductive Reply where
  /-- `http.Error`. -/
  | error (status : ℕ) (message : String)
  /-- `w.WriteHeader(http.StatusNoContent)`. -/
  | noContent
  /-- A `leaseOut`, with status 200. -/
  | leaseOut (ok : Bool) (lease : TaskLease)
  /-- `{"ok": true}`, with status 200. -/
  | ok
  /-- A nil pointer was dereferenced: the connection ends without an answer. -/
  | panicked
  deriving DecidableEq

/-- `requireAuth`. -/
def requireAuth {β : Type} (env : Env) (r : Request β) : Bool :=
  if env.disableAuth = "1" then true
  else if env.controlToken = "" then false
  else r.header "Authorization" = "Bearer " ++ env.controlToken

/-- The segments of the path of a request. -/
def Request.parts {β : Type} (r : Request β) : List String :=
  split (trim r.path '/') '/'

/-- The token in a text, which is 0 when the text is empty or does not parse. -/
def tokenOf (tokenStr : String) : UInt64 :=
  if tokenStr ≠ "" then (parseUint tokenStr).getD 0 else 0

/-- `ttlOrDefault`. -/
def ttlOrDefault (sec : Int) : Duration :=
  if sec ≤ 0 ∨ sec > 3600 then 15 * second else sec * second

/-! ## Finish -/

/-- `finishIn`, without the field that nothing reads. -/
structure FinishIn where
  status : String
  metrics : Metrics
  artifacts : Strings
  resultCID : String

/-- The arguments with which `finishHandler` calls the store. -/
structure FinishCall where
  id : String
  agentID : String
  token : UInt64
  outcome : Outcome

/-- The checks of `finishHandler`. -/
def finishRequest (env : Env) (r : Request FinishIn) : Except Reply FinishCall :=
  if ¬ requireAuth env r then .error (.error 401 "unauthorized")
  else if r.method ≠ "POST" then .error (.error 405 "method not allowed")
  else match r.parts with
    | ["jobs", id, "finish"] =>
        match r.body with
        | .error e => .error (.error 400 ("bad json: " ++ e))
        | .ok body => .ok {
            id := id
            agentID := r.header "X-Agent-ID"
            token := tokenOf (r.header "X-Lease-Token")
            outcome := {
              succeeded := toLower body.status = "succeeded"
              resultCID := body.resultCID
              artifacts := body.artifacts
              metrics := body.metrics } }
    | _ => .error (.error 400 "bad path")

/-- The mirror of a finished job. -/
def mirrorFinish (ns id : String) (outcome : Outcome) : Code Unit := do
  let st ← getJSON (.state id)
  let now ← timeNow
  putJSON (.state id) { st with
    status := outcome.status
    updatedAt := now
    finishedAt := some now
    version := incr st.version }
  delJSON (.lease id)
  delJSON (.taskAd ns id)
  delJSON (.manifestMirror id)

/-- What `finishHandler` does for a request that passed its checks. -/
def finishJob (ns : String) (c : FinishCall) : Code Reply := do
  match ← store (PGStore.finish c.id c.agentID c.token c.outcome) with
  | .error e => pure (.error 409 ("finish failed: " ++ e.text))
  | .ok _ =>
      mirrorFinish ns c.id c.outcome
      pure .noContent

/-- `finishHandler`. -/
def finishHandler (env : Env) (ns : String) (r : Request FinishIn) : Code Reply :=
  match finishRequest env r with
  | .error reply => pure reply
  | .ok c => finishJob ns c

/-! ## Try-claim -/

/-- `tryClaimIn`. -/
structure TryClaimIn where
  agentID : String
  ttlSec : Int

/-- The arguments with which `tryClaimHandler` calls the store. -/
structure ClaimCall where
  id : String
  agentID : String
  ttl : Duration

/-- The checks of `tryClaimHandler`. -/
def tryClaimRequest (env : Env) (r : Request TryClaimIn) : Except Reply ClaimCall :=
  if ¬ requireAuth env r then .error (.error 401 "unauthorized")
  else match r.parts with
    | ["api", "tasks", id, "try-claim"] =>
        match r.body with
        | .error e => .error (.error 400 ("bad json: " ++ e))
        | .ok body =>
            if body.agentID = "" then .error (.error 400 "agent_id required")
            else .ok ⟨id, body.agentID, ttlOrDefault body.ttlSec⟩
    | _ => .error (.error 400 "bad path")

/-- The mirror of an assigned job: its state. -/
def mirrorAssigned (c : ClaimCall) : Code Unit := do
  let now ← timeNow
  let st ← getJSON (.state c.id)
  putJSON (.state c.id) { st with
    id := c.id
    status := .assigned
    assignedTo := c.agentID
    updatedAt := now
    startedAt := some (st.startedAt.getD now)
    version := incr st.version }

/-- The part of `tryClaimHandler` after the errors that end it. The pointer `claimedLease` is nil
when the store returned an error, and its fields are read only after the state is written. -/
def assignJob (c : ClaimCall) (claimedLease : Option Lease) : Code Reply := do
  mirrorAssigned c
  match claimedLease with
  | none => pure .panicked
  | some claimed =>
      let lease : TaskLease :=
        ⟨c.agentID, "", claimed.expireAt, int64 claimed.fencingToken⟩
      putJSON (.lease c.id) lease
      pure (.leaseOut true lease)

/-- How `tryClaimHandler` goes on after the store. -/
def answerClaim (c : ClaimCall) : Except Err Lease → Code Reply
  | .ok claimed => assignJob c (some claimed)
  | .error .leaseConflict => pure (.leaseOut false default)
  | .error .jobNotFound => pure (.error 404 "not found")
  | .error .noManifest => assignJob c none
  | .error e => pure (.error 500 ("store error: " ++ e.text))

/-- What `tryClaimHandler` does for a request that passed its checks. -/
def claimJob (c : ClaimCall) : Code Reply := do
  let result ← store (PGStore.tryClaim c.id c.agentID c.ttl)
  answerClaim c result

/-- `tryClaimHandler`. -/
def tryClaimHandler (env : Env) (r : Request TryClaimIn) : Code Reply :=
  match tryClaimRequest env r with
  | .error reply => pure reply
  | .ok c => claimJob c

/-! ## Heartbeat -/

/-- `hbIn`. -/
structure HbIn where
  agentID : String
  nonce : String
  ttlSec : Int
  leaseVersion : Int

/-- The arguments with which `heartbeatHandler` calls the store. -/
structure HeartbeatCall where
  id : String
  agentID : String
  token : UInt64
  ttl : Duration

/-- The token of a heartbeat: the version of the lease, else the nonce, else the header. -/
def heartbeatToken (r : Request HbIn) (body : HbIn) : UInt64 :=
  if body.leaseVersion > 0 then uint64 body.leaseVersion
  else
    let nonce := trimSpace body.nonce
    tokenOf (if nonce = "" then r.header "X-Lease-Token" else nonce)

/-- The checks of `heartbeatHandler`. -/
def heartbeatRequest (env : Env) (r : Request HbIn) : Except Reply HeartbeatCall :=
  if ¬ requireAuth env r then .error (.error 401 "unauthorized")
  else match r.parts with
    | ["api", "tasks", id, "heartbeat"] =>
        match r.body with
        | .error e => .error (.error 400 ("bad json: " ++ e))
        | .ok body =>
            let token := heartbeatToken r body
            if token = 0 then .error (.error 400 "missing lease token")
            else .ok ⟨id, body.agentID, token, ttlOrDefault body.ttlSec⟩
    | _ => .error (.error 400 "bad path")

/-- The mirror of a renewed lease. -/
def mirrorHeartbeat (c : HeartbeatCall) : Code Unit := do
  let cur ← getJSON (.lease c.id)
  let now ← timeNow
  putJSON (.lease c.id) { cur with
    owner := c.agentID
    expires := now + c.ttl
    version := incr cur.version }

/-- What `heartbeatHandler` does for a request that passed its checks. -/
def heartbeatJob (c : HeartbeatCall) : Code Reply := do
  match ← store (PGStore.heartbeat c.id c.agentID c.token c.ttl) with
  | .error e => pure (.error 409 ("heartbeat failed: " ++ e.text))
  | .ok _ =>
      mirrorHeartbeat c
      pure .ok

/-- `heartbeatHandler`. -/
def heartbeatHandler (env : Env) (r : Request HbIn) : Code Reply :=
  match heartbeatRequest env r with
  | .error reply => pure reply
  | .ok c => heartbeatJob c

/-! ## Requeue -/

/-- `updateDHTStateQueued`. -/
def updateDHTStateQueued (id : String) (now : Time) : Code Unit := do
  let st ← getJSON (.state id)
  putJSON (.state id) { st with
    id := id
    status := .queued
    assignedTo := ""
    updatedAt := now
    version := incr st.version }

/-- The body of `requeueLoop` for one expired job. -/
def requeueJob (id : String) (now : Time) : Code Unit := do
  match ← store (PGStore.setStatusQueued id) with
  | .error _ => pure ()
  | .ok _ =>
      delJSON (.lease id)
      updateDHTStateQueued id now
      enqueue id

/-- One tick of `requeueLoop`. -/
def requeueTick : Code Unit := do
  let now ← timeNow
  match ← store (PGStore.listExpiredLeases (now - 3 * second)) with
  | .error _ => pure ()
  | .ok expired => expired.forM fun id => requeueJob id now

/-! ## The steps of the handlers -/

/-- The statement is one that the handlers send for the job. -/
def Serves (id : String) : Stmt → Prop
  | .getJob k | .tryClaim k _ _ | .claimRefusal k | .heartbeat k _ _ _ | .finish k _ _ _
  | .setStatusQueued k => k = id
  | .createJob _ | .attachManifest _ _ | .listExpiredLeases => False

/-- The steps by which the handlers mirror a job satisfy `P`. -/
structure MirrorSteps (P : Call → Prop) (id : String) : Prop where
  time : P .timeNow
  enqueue : P (.enqueue id)
  get : ∀ k, P (.getJSON k)
  state : ∀ st, P (.putJSON (.state id) st)
  lease : ∀ lease, P (.putJSON (.lease id) lease)
  noLease : P (.delJSON (.lease id))
  taskAd : ∀ ns, P (.delJSON (.taskAd ns id))
  manifest : P (.delJSON (.manifestMirror id))

/-- The steps by which the handlers act on a job satisfy `P`: their statements, and the mirror. -/
structure HandlerSteps (P : Call → Prop) (id : String) : Prop extends MirrorSteps P id where
  stmt : ∀ s, Serves id s → P (.sql s)

namespace MirrorSteps

variable {P : Call → Prop} {id : String}

/-- The steps of the mirror of an assigned job. -/
theorem mirror_assigned {c : ClaimCall} (h : MirrorSteps P c.id) :
    (mirrorAssigned c).Always (fun _ _ => True) P :=
  ⟨h.time, fun _ _ => ⟨h.get _, fun _ _ => ⟨h.state _, fun _ _ => trivial⟩⟩⟩

/-- The steps of a claim after the store. -/
theorem answer_claim {c : ClaimCall} (h : MirrorSteps P c.id) (result : Except Err Lease) :
    (answerClaim c result).Always (fun _ _ => True) P := by
  have hassign : ∀ claimed, (assignJob c claimed).Always (fun _ _ => True) P := by
    intro claimed
    refine Prog.always_bind h.mirror_assigned fun _ => ?_
    cases claimed with
    | none => trivial
    | some claimed => exact ⟨h.lease _, fun _ _ => trivial⟩
  rcases result with (_ | _ | _ | _ | e) | claimed
  · trivial
  · exact hassign none
  · trivial
  · trivial
  · trivial
  · exact hassign (some claimed)

/-- The steps of the mirror of a renewed lease. -/
theorem mirror_heartbeat {c : HeartbeatCall} (h : MirrorSteps P c.id) :
    (mirrorHeartbeat c).Always (fun _ _ => True) P :=
  ⟨h.get _, fun _ _ => ⟨h.time, fun _ _ => ⟨h.lease _, fun _ _ => trivial⟩⟩⟩

/-- The steps of the mirror of a finished job. -/
theorem mirror_finish (h : MirrorSteps P id) (ns : String) (outcome : Outcome) :
    (mirrorFinish ns id outcome).Always (fun _ _ => True) P := by
  refine ⟨h.get _, fun _ _ => ⟨h.time, fun _ _ => ⟨h.state _, fun _ _ => ?_⟩⟩⟩
  exact ⟨h.noLease, fun _ _ => ⟨h.taskAd ns, fun _ _ => ⟨h.manifest, fun _ _ => trivial⟩⟩⟩

/-- The steps of the mirror of a queued job. -/
theorem update_dht_state_queued (h : MirrorSteps P id) (now : Time) :
    (updateDHTStateQueued id now).Always (fun _ _ => True) P :=
  ⟨h.get _, fun _ _ => ⟨h.state _, fun _ _ => trivial⟩⟩

end MirrorSteps

namespace HandlerSteps

variable {P : Call → Prop} {id : String}

/-- The steps of a call of the store. -/
theorem store {α : Type} {m : PGStore.Method α} (h : HandlerSteps P id)
    (hm : m.Always (fun _ _ => True) (Serves id)) :
    (store m).Always (fun _ _ => True) P :=
  hm.embed h.stmt

/-- The steps of `tryClaimHandler`. -/
theorem try_claim_handler {env : Env} {r : Request TryClaimIn}
    (h : ∀ c, tryClaimRequest env r = .ok c → HandlerSteps P c.id) :
    (tryClaimHandler env r).Always (fun _ _ => True) P := by
  unfold tryClaimHandler
  cases hreq : tryClaimRequest env r with
  | error reply => trivial
  | ok c =>
      have hc := h c hreq
      refine Prog.always_bind (hc.store ⟨rfl, fun response _ => ?_⟩) hc.answer_claim
      rcases response with e | (_ | ⟨token, expireAt⟩)
      · trivial
      · refine ⟨rfl, fun response _ => ?_⟩
        rcases response with e | (_ | job)
        · trivial
        · trivial
        · exact ⟨rfl, fun _ _ => trivial⟩
      · trivial

/-- The steps of `heartbeatHandler`. -/
theorem heartbeat_handler {env : Env} {r : Request HbIn}
    (h : ∀ c, heartbeatRequest env r = .ok c → HandlerSteps P c.id) :
    (heartbeatHandler env r).Always (fun _ _ => True) P := by
  unfold heartbeatHandler
  cases hreq : heartbeatRequest env r with
  | error reply => trivial
  | ok c =>
      have hc := h c hreq
      refine Prog.always_bind (hc.store ⟨rfl, fun _ _ => trivial⟩) fun result => ?_
      cases result with
      | error e => trivial
      | ok _ => exact Prog.always_bind hc.mirror_heartbeat fun _ => trivial

/-- The steps of `finishHandler`. -/
theorem finish_handler {env : Env} {ns : String} {r : Request FinishIn}
    (h : ∀ c, finishRequest env r = .ok c → HandlerSteps P c.id) :
    (finishHandler env ns r).Always (fun _ _ => True) P := by
  unfold finishHandler
  cases hreq : finishRequest env r with
  | error reply => trivial
  | ok c =>
      have hc := h c hreq
      have hstore : (PGStore.finish c.id c.agentID c.token c.outcome).Always (fun _ _ => True)
          (Serves c.id) := ⟨rfl, fun response _ => by cases response <;> trivial⟩
      refine Prog.always_bind (hc.store hstore) fun result => ?_
      cases result with
      | error e => trivial
      | ok _ => exact Prog.always_bind (hc.mirror_finish ns c.outcome) fun _ => trivial

/-- The steps of the body of `requeueLoop`. -/
theorem requeue_job (h : HandlerSteps P id) (now : Time) :
    (requeueJob id now).Always (fun _ _ => True) P := by
  refine Prog.always_bind (h.store ⟨rfl, fun _ _ => trivial⟩) fun result => ?_
  cases result with
  | error e => trivial
  | ok _ =>
      refine Prog.always_bind ⟨h.noLease, fun _ _ => trivial⟩ fun _ => ?_
      refine Prog.always_bind (h.update_dht_state_queued now) fun _ => ?_
      exact ⟨h.enqueue, fun _ _ => trivial⟩

/-- The steps of a tick of `requeueLoop`. -/
theorem requeue_tick (htime : P .timeNow) (hlist : P (.sql .listExpiredLeases))
    (h : ∀ id, HandlerSteps P id) : requeueTick.Always (fun _ _ => True) P := by
  refine ⟨htime, fun now _ => ⟨hlist, fun result _ => ?_⟩⟩
  cases result with
  | error e => trivial
  | ok expired => exact Prog.always_forM fun id _ => (h id).requeue_job now

end HandlerSteps

end MutualCloud.Control
