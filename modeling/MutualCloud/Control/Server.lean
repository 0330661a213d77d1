import MutualCloud.Control.Manager
import MutualCloud.Control.Restart
import MutualCloud.Control.Routes
import MutualCloud.Dht.Json
import MutualCloud.Store.Listing

/-!
# The control server as a whole

The handlers of `cmd/control/control_http.go` that only report, and all handlers and loops of the
control server together. `serve` dispatches a request as `mountHTTP` does and runs the handler it
finds, `Work` lists what the control server runs besides requests, and `server` is a pool in which
any number of requests and passes of the loops run side by side.

`agentManifestHandler` is not mounted, so no request gets to it.
-/

namespace MutualCloud.Control

open Go KeyedTable Interaction Labelled Store

/-! ## Steps -/

/-- The rows of `ListPaged`, newest first. -/
def pagedJobs (limit offset : ℕ) (db : DemandJobs) : List DBJob :=
  (((db.entries.map fun entry => Stmt.selectJob entry.1 entry.2).insertionSort
    fun a b => b.createdAt ≤ a.createdAt).drop offset).take limit

/-- The rows of `CountByStatus`, as the map that it returns. -/
def statusCount (db : DemandJobs) (status : JobStatus) : ℕ :=
  (db.entries.filter fun entry => entry.2.status = status).length

/-- The record that `logsHandler` puts. -/
structure WSToken where
  token : String
  issued : Time
  deriving DecidableEq

/-- The order of an iteration over a map, which Go does not fix. -/
structure MapOrder where
  arrange : List String → List String
  perm : ∀ keys, (arrange keys).Perm keys

/-- The state of the control server, with the records of `logsHandler`. -/
structure Server where
  site : Site
  /-- What is under `KeyWS(id)`. -/
  ws : String → Dht.Register Metrics
  /-- What is under `KeyWS(id)` with `_token` appended. -/
  wsToken : String → Dht.Register WSToken

namespace Server

/-- The atomic steps of the control server. -/
inductive Op where
  /-- A step on the site. -/
  | site (op : Site.Op)
  /-- The query of `ListPaged`. -/
  | listPaged (limit offset : ℕ)
  /-- The query of `CountByStatus`. -/
  | countByStatus
  /-- A step on the key of an endpoint. -/
  | ws (id : String) (op : Dht.Op Metrics)
  /-- A step on the key of a token. -/
  | wsToken (id : String) (op : Dht.Op WSToken)
  /-- `Run` receives from `trigger`. -/
  | receive
  /-- The part of `process` under the lock. -/
  | process (interval : Duration)

/-- What a step returns. -/
abbrev Op.Response : Op → Type
  | site op => op.Response
  | listPaged _ _ => Except SqlError (List DBJob)
  | countByStatus => Except SqlError (JobStatus → ℕ)
  | ws _ op => op.Response
  | wsToken _ op => op.Response
  | receive => Unit
  | process _ => List String

/-- The input of a step: that of a step on the site, and the order of an iteration. -/
structure Input extends onSite : Site.Input where
  order : MapOrder := ⟨id, fun _ => .refl _⟩

/-- The rows of a query, unless the database fails. -/
def query {α : Type} (input : Input) (rows : α) : Except SqlError α :=
  match input.fault with
  | some e => .error e
  | none => .ok rows

/-- How the surroundings of the control server answer a step. -/
def effect : Effect Op Op.Response Input Server
  | .site op, input, s =>
      let answer := Site.effect op input.onSite s.site
      (answer.1, { s with site := answer.2 })
  | .listPaged limit offset, input, s =>
      (query input (pagedJobs limit offset s.site.world.db), s)
  | .countByStatus, input, s => (query input (statusCount s.site.world.db), s)
  | .ws id op, input, s =>
      let answer := Dht.effect op input.onKey (s.ws id)
      (answer.1, { s with ws := Function.update s.ws id answer.2 })
  | .wsToken id op, input, s =>
      let answer := Dht.effect op input.onKey (s.wsToken id)
      (answer.1, { s with wsToken := Function.update s.wsToken id answer.2 })
  | .receive, _, s => ((), { s with site.world.trigger := false })
  | .process interval, input, s => (input.order.arrange (s.site.due interval input.now), s)

end Server

/-- Code of the control server. -/
abbrev ServerCode := Prog Server.Op Server.Op.Response

namespace Server

/-- Code that acts on the site only. -/
def lift {α : Type} (p : SiteCode α) : ServerCode α := p.embed Op.site fun _ r => r

/-- The access to the key of an endpoint. -/
def wsAccess (id : String) : Dht.KeyAccess Op Op.Response Metrics where
  getValue := Prog.perform (Op.ws id .getValue)
  putValue v := Prog.perform (Op.ws id (.putValue v))
  loadLocal := Prog.perform (Op.ws id .loadLocal)
  storeLocal v := Prog.perform (Op.ws id (.storeLocal v))
  timeNow := Prog.perform (Op.ws id .timeNow)

/-- The access to the key of a token. -/
def wsTokenAccess (id : String) : Dht.KeyAccess Op Op.Response WSToken where
  getValue := Prog.perform (Op.wsToken id .getValue)
  putValue v := Prog.perform (Op.wsToken id (.putValue v))
  loadLocal := Prog.perform (Op.wsToken id .loadLocal)
  storeLocal v := Prog.perform (Op.wsToken id (.storeLocal v))
  timeNow := Prog.perform (Op.wsToken id .timeNow)

/-- `store.ListPaged(ctx, limit, offset)`. -/
def listPaged (limit offset : Int) : ServerCode (Except SqlError (List DBJob)) :=
  Prog.perform (Op.listPaged (pageLimit limit) offset.toNat)

/-- `store.CountByStatus(ctx)`. -/
def countByStatus : ServerCode (Except SqlError (JobStatus → ℕ)) := Prog.perform Op.countByStatus

end Server

/-! ## Requests and answers -/

/-- What the JSON decoder makes of a body, for each type that a handler decodes it to. -/
structure Body where
  finish : Except String FinishIn
  tryClaim : Except String TryClaimIn
  heartbeat : Except String HbIn
  release : Except String ReleaseIn
  create : Except String CreateTaskReq
  manifest : Except String ManifestIn

/-- A request to the control server. A missing header or parameter reads as the empty string. -/
structure Incoming where
  method : String
  path : String
  header : String → String
  query : String → String
  body : Body

/-- The request as a handler sees it. -/
def Incoming.request {β : Type} (r : Incoming) (decode : Body → Except String β) : Request β :=
  ⟨r.method, r.path, r.header, decode r.body⟩

/-- The request as a handler sees it that does not read the body. -/
def Incoming.bodiless (r : Incoming) : Request Unit := r.request fun _ => .ok ()

/-- `manifestOutDTO`. -/
structure ManifestOut where
  rootCID : String
  providers : List Provider
  rendezvous : String
  transports : List String
  version : Int
  updatedAt : Time
  deriving DecidableEq

/-- What `getTaskHandler` reports: the parts `meta` and `state` have one id. -/
structure TaskOut where
  id : String
  image : String
  command : Strings
  status : JobStatus
  manifest : Option ManifestOut
  deriving DecidableEq

/-- What `debugLeaseHandler` reports. -/
structure LeaseInfo where
  id : String
  status : TaskStatus
  owner : String
  leaseOwner : String
  leaseExpires : Time
  leaseVer : Int
  updatedAt : Time
  deriving DecidableEq

/-- What `statsHandler` reports. -/
structure Stats where
  queued : ℕ
  assigned : ℕ
  running : ℕ
  succeeded : ℕ
  failed : ℕ
  deriving DecidableEq

/-- What the control server answers. -/
inductive Answer where
  /-- The answer of a handler that acts, and `http.Error`. -/
  | reply (r : Reply)
  /-- The answer of `createTaskHandler`. -/
  | create (r : CreateReply)
  /-- `http.Redirect`. -/
  | redirect (path : String)
  /-- `{"ok":true}`, of `healthHandler`. -/
  | health
  /-- The list of `listTasksHandler`, which shows all columns that `ListPaged` selects. -/
  | tasks (jobs : List DBJob)
  | task (out : TaskOut)
  | stats (out : Stats)
  /-- The answer of `logsHandler`. -/
  | logs (endpoint : Metrics) (token : String)
  | lease (info : LeaseInfo)
  deriving DecidableEq

/-- `http.Error`. -/
def Answer.error (status : ℕ) (message : String) : Answer := .reply (.error status message)

/-! ## Handlers that report -/

/-- The manifest that `getTaskHandler` shows. -/
def manifestOut : Except String TaskManifest → Option ManifestOut
  | .error _ => none
  | .ok man =>
      if man.rootCID ≠ "" then
        some ⟨man.rootCID, man.providers, man.rendezvous, man.transports, man.version,
          man.updatedAt⟩
      else none

/-- The part of `getTaskHandler` after the row. -/
def reportTask (id : String) (job : DBJob) : SiteCode Answer := do
  let man ← Site.getJSON (.manifest id)
  pure (.task ⟨job.id, job.image, job.command, job.status, manifestOut man⟩)

/-- What `getTaskHandler` does for a request that passed its checks. -/
def getTask (id : String) : SiteCode Answer := do
  match ← Site.lift (store (PGStore.getJob id)) with
  | .error _ => pure (.error 404 "not found")
  | .ok job => reportTask id job

/-- `getTaskHandler`. -/
def getTaskHandler (env : Env) (r : Request Unit) : SiteCode Answer :=
  if ¬ requireAuth env r then pure (.error 401 "unauthorized")
  else if r.method ≠ "GET" then pure (.error 405 "method not allowed")
  else
    let id := trimPrefix r.path "/api/tasks/"
    if id = "" then pure (.error 404 "404 page not found") else getTask id

/-- A number in the query of a URL, with the default for one that is missing or does not parse. -/
def queryInt (text : String) (value : Int) : Int :=
  if text ≠ "" then (atoi text).getD value else value

/-- `listTasksHandler`. -/
def listTasksHandler (env : Env) (query : String → String) (r : Request Unit) :
    ServerCode Answer :=
  if ¬ requireAuth env r then pure (.error 401 "unauthorized")
  else if r.method ≠ "GET" then pure (.error 405 "method not allowed")
  else do
    match ← Server.listPaged (queryInt (query "limit") 100) (queryInt (query "offset") 0) with
    | .error e => pure (.error 500 ("db list failed: " ++ e))
    | .ok jobs => pure (.tasks jobs)

/-- `statsHandler`. -/
def statsHandler (env : Env) (r : Request Unit) : ServerCode Answer :=
  if ¬ requireAuth env r then pure (.error 401 "unauthorized")
  else do
    match ← Server.countByStatus with
    | .error e => pure (.error 500 ("count failed: " ++ e))
    | .ok m => pure (.stats ⟨m .queued, m .assigned, m .running, m .succeeded, m .failed⟩)

/-- `t.Unix()`, where a time counts from Go's zero time. -/
def unix (t : Time) : Int := t / second - 62135596800

/-- What `logsHandler` does once it has the endpoint. -/
def issueToken (id : String) (endpoint : Metrics) : ServerCode Answer := do
  let now ← Server.lift (Site.lift timeNow)
  let tkn := "demo-" ++ toString (unix now)
  let issued ← Server.lift (Site.lift timeNow)
  let _ ← Dht.putJSON (Server.wsTokenAccess id) ⟨tkn, issued⟩
  pure (.logs endpoint tkn)

/-- `logsHandler`. -/
def logsHandler (env : Env) (r : Request Unit) : ServerCode Answer :=
  if ¬ requireAuth env r then pure (.error 401 "unauthorized")
  else do
    let id := trimBetween "/api/tasks/" "/logs" r.path
    match ← Dht.getJSON (Server.wsAccess id) with
    | .error _ => pure (.error 404 "no ws endpoint")
    | .ok endpoint => issueToken id endpoint

/-- `debugLeaseHandler`. -/
def debugLeaseHandler (env : Env) (r : Request Unit) : Code Answer :=
  if ¬ requireAuth env r then pure (.error 401 "unauthorized")
  else do
    let id := trimBetween "/internal/tasks/" "/lease" r.path
    let st ← getJSON (.state id)
    let le ← getJSON (.lease id)
    pure (.lease ⟨id, st.status, st.assignedTo, le.owner, le.expires, le.version, st.updatedAt⟩)

/-! ## Everything the control server runs -/

/-- A handler that acts, with its reply as an answer. -/
def Server.reply (p : SiteCode Reply) : ServerCode Answer := do
  let r ← Server.lift p
  pure (.reply r)

/-- The handler of a request. -/
def Handler.code (cfg : Config) (r : Incoming) : Handler → ServerCode Answer
  | health => pure .health
  | listTasks => listTasksHandler cfg.env r.query r.bodiless
  | createTask => do
      let reply ← Server.lift (createTaskHandler cfg.env cfg.ns (r.request Body.create))
      pure (.create reply)
  | tryClaim => Server.reply (Site.lift (tryClaimHandler cfg.env (r.request Body.tryClaim)))
  | heartbeat => Server.reply (Site.lift (heartbeatHandler cfg.env (r.request Body.heartbeat)))
  | release => Server.reply (Site.lift (releaseHandler cfg.env (r.request Body.release)))
  | logs => logsHandler cfg.env r.bodiless
  | getTask => Server.lift (getTaskHandler cfg.env r.bodiless)
  | stats => statsHandler cfg.env r.bodiless
  | manifest => Server.reply (manifestHandler cfg (r.request Body.manifest))
  | finish => Server.reply (Site.lift (finishHandler cfg.env cfg.ns (r.request Body.finish)))
  | debugLease => Server.lift (Site.lift (debugLeaseHandler cfg.env r.bodiless))
  | forceRequeue => Server.reply (forceRequeueHandler cfg.env r.bodiless)

/-- A request to the control server, from its dispatch to its answer. -/
def serve (cfg : Config) (r : Incoming) : ServerCode Answer :=
  match mountHTTP r.method r.path with
  | .redirect path => pure (.redirect path)
  | .error status message => pure (.error status message)
  | .handler h => h.code cfg r

/-- `process`. -/
def process (cfg : Config) (interval : Duration) : ServerCode Unit := do
  let ids ← Prog.perform (Server.Op.process interval)
  ids.forM fun id => Server.lift (announceOnce cfg id)

/-- One pass of the loop of `Run`, for a tick or for a wake-up. -/
def runPass (cfg : Config) (interval : Duration) (woken : Bool) : ServerCode Unit :=
  if woken then do
    Prog.perform Server.Op.receive
    process cfg interval
  else process cfg interval

/-- What the control server runs. -/
inductive Work where
  | request (r : Incoming)
  /-- A pass of `Run`. -/
  | announce (woken : Bool)
  /-- A tick of `requeueLoop`. -/
  | requeue
  /-- A tick of `reannounceQueuedLoop`. -/
  | reannounce
  /-- `restoreJobsFromDemand`. -/
  | restore
  /-- The tasks of the flag `--create`. -/
  | create (createStr image cmdStr : String)

/-- Work without an answer. -/
def Server.silent {α : Type} (p : ServerCode α) : ServerCode (Option Answer) := do
  let _ ← p
  pure none

/-- The code of a piece of work, with the answer to a request. -/
def Work.code (cfg : Config) (interval : Duration) : Work → ServerCode (Option Answer)
  | request r => do
      let answer ← serve cfg r
      pure (some answer)
  | announce woken => Server.silent (runPass cfg interval woken)
  | requeue => Server.silent (Server.lift (Site.lift requeueTick))
  | reannounce => Server.silent (Server.lift reannounceTick)
  | restore => Server.silent (Server.lift (restoreJobsFromDemand cfg.ns))
  | create createStr image cmdStr =>
      Server.silent (Server.lift (createFromFlags cfg.ns createStr image cmdStr))

/-- The control server with all its work at the start. -/
def server {τ : Type} (cfg : Config) (interval : Duration) (work : τ → Work) (s : Server) :
    Pool τ Server.Op Server.Op.Response Server (Option Answer) :=
  ⟨s, fun i => (work i).code cfg interval⟩

/-- A step with its input and response. -/
abbrev Server.Event := Interaction.Event Server.Op Server.Op.Response Server.Input

/-- The control server after the steps of a schedule. -/
def Server.after {τ : Type} [DecidableEq τ] (cfg : Config) (interval : Duration) (work : τ → Work)
    (plan : List (τ × Server.Input)) (s : Server) :
    List (τ × Server.Event) × Pool τ Server.Op Server.Op.Response Server (Option Answer) :=
  Pool.schedule Server.effect plan (server cfg interval work s)

end MutualCloud.Control
