import MutualCloud.Control.Directory

/-!
# The paths that create a task

`createTaskHandler`, the startup flag `--create` and `restoreJobsFromDemand` all write the
metadata and the state of a task and enter its id into the index of the namespace. Two of them use
`addToIndex`, which writes one of 32 shards; the flag uses `createTask`, which writes the single
key `KeyIndex(ns)`. `ListFromIndex` of `pkg/agent/discover.go` reads the shards only. So a sequence
of creations keeps every created task listed exactly when each task of a flag was listed before
(`created_listed_iff`).
-/

namespace MutualCloud.Control

open Go KeyedTable Interaction Labelled Store

/-! ## The index -/

/-- `TaskIndexShardCount`. -/
def taskIndexShardCount : ℕ := 32

/-- The part of `addToIndex` after the read of a shard. -/
def enterShard (ns id : String) (shard : ℕ) (idx : Dht.TaskIndex) : SiteCode (Option String) :=
  if id ∈ idx.ids then pure none
  else do
    let now ← Site.lift timeNow
    Site.putJSON (.indexShard ns shard) ⟨idx.ids ++ [id], now, incr idx.version⟩

/-- `addToIndex`. A shard that cannot be read counts as empty. -/
def addToIndex (ns id : String) : SiteCode (Option String) := do
  let shard ← Site.intn taskIndexShardCount
  match ← Site.getJSON (.indexShard ns shard) with
  | .ok idx => enterShard ns id shard idx
  | .error _ => enterShard ns id shard default

/-- The steps of `addToIndex` are steps on the shards, a random number and the time. -/
theorem add_to_index_always {P : Site.Op → Prop} {ns id : String}
    (hintn : P (.intn taskIndexShardCount)) (htime : P (.base .timeNow))
    (hkey : ∀ shard op, P (.key (.indexShard ns shard) op)) :
    (addToIndex ns id).Always (fun _ _ => True) P := by
  have henter : ∀ shard idx, (enterShard ns id shard idx).Always (fun _ _ => True) P := by
    intro shard idx
    unfold enterShard
    split
    · trivial
    · exact ⟨htime, fun _ _ => Site.put_json_always_of (hkey shard _) (hkey shard _)⟩
  refine ⟨hintn, fun shard _ => ⟨hkey shard _, fun result _ => ?_⟩⟩
  cases result with
  | ok idx => exact henter shard idx
  | error e =>
      refine ⟨hkey shard _, fun result _ => ?_⟩
      cases result <;> exact henter shard _

/-- The loop of `ListFromIndex`, over the shards that are left. -/
def scanShards (ns : String) : List ℕ → List String → SiteCode (List String)
  | [], ids => pure ids
  | shard :: rest, ids => do
      match ← Site.getJSON (.indexShard ns shard) with
      | .error _ => scanShards ns rest ids
      | .ok idx => scanShards ns rest (ids ++ idx.ids)

/-- `ListFromIndex`. -/
def listFromIndex (ns : String) : SiteCode (List String) :=
  scanShards ns (List.range taskIndexShardCount) []

/-! ## Creation -/

/-- The state of a task that was just created. -/
def queuedState (id : String) (now : Time) : TaskState where
  id := id
  status := .queued
  version := 1
  updatedAt := now
  assignedTo := ""
  startedAt := none
  finishedAt := none

/-- The index as it is stored. Its encoding only has to decode to itself. -/
def indexCodec : Dht.Codec Dht.TaskIndex Dht.TaskIndex where
  marshal idx := idx
  unmarshal idx := (idx, none)
  isEmpty _ := false
  unmarshal_marshal _ := rfl
  marshal_nonempty _ := rfl

/-- `createTask`. -/
def createTask (ns id image : String) (cmd : Strings) : SiteCode (Except Dht.Err Unit) := do
  let now ← Site.lift timeNow
  match ← Site.putJSON (.taskMeta id) ⟨id, now, image, cmd⟩ with
  | some e => pure (.error (.network e))
  | none =>
      match ← Site.putMirror (.state id) (queuedState id now) with
      | some e => pure (.error (.network e))
      | none => Site.putJSONCAS (.index ns) (Dht.indexCheck indexCodec incr id now)

/-- The words of a list that is separated by commas. -/
def words (s : String) : List String :=
  ((split s ',').map trimSpace).filter (· ≠ "")

/-- The command of the tasks that `--create` names, which is nil without words. -/
def flagCommand (cmdStr : String) : Strings :=
  if words cmdStr = [] then none else some (words cmdStr)

/-- The body of the loop over the tasks that `--create` names, with the result that it logs. -/
def createFromFlag (ns image : String) (cmd : Strings) (id : String) :
    SiteCode (Except Dht.Err Unit) := do
  let result ← createTask ns id image cmd
  let now ← Site.lift timeNow
  let _ ← Site.lift (store (PGStore.createJob ⟨id, image, cmd, .queued, now, 0⟩))
  Site.lift (enqueue id)
  pure result

/-- The loop over the tasks that `--create` names, with the results that it logs. -/
def createEach (ns image : String) (cmd : Strings) :
    List String → SiteCode (List (String × Except Dht.Err Unit))
  | [] => pure []
  | id :: rest => do
      let result ← createFromFlag ns image cmd id
      let later ← createEach ns image cmd rest
      pure ((id, result) :: later)

/-- The part of `main` that handles the flag `--create`. -/
def createFromFlags (ns createStr image cmdStr : String) :
    SiteCode (List (String × Except Dht.Err Unit)) :=
  if createStr ≠ "" then createEach ns image (flagCommand cmdStr) (words createStr)
  else pure []

/-- `CreateTaskReq`. -/
structure CreateTaskReq where
  id : String
  image : String
  command : Strings

/-- What `createTaskHandler` answers. -/
inductive CreateReply where
  /-- `http.Error`. -/
  | error (status : ℕ) (message : String)
  /-- `{"job_id": id}`, with status 201. -/
  | created (jobID : String)
  deriving DecidableEq

/-- The checks of `createTaskHandler`. -/
def createTaskRequest (env : Env) (r : Request CreateTaskReq) : Except CreateReply CreateTaskReq :=
  if ¬ requireAuth env r then .error (.error 401 "unauthorized")
  else if r.method ≠ "POST" then .error (.error 405 "method not allowed")
  else match r.body with
    | .error _ => .error (.error 400 "bad request")
    | .ok req => if req.id = "" then .error (.error 400 "bad request") else .ok req

/-- What `createTaskHandler` does in the DHT, after the row of the job is there. -/
def publishTask (ns : String) (req : CreateTaskReq) (now : Time) : SiteCode CreateReply := do
  match ← Site.putJSON (.taskMeta req.id) ⟨req.id, now, req.image, req.command⟩ with
  | some e => pure (.error 500 ("dht put meta failed: " ++ e))
  | none =>
      match ← Site.putMirror (.state req.id) (queuedState req.id now) with
      | some e => pure (.error 500 ("dht put state failed: " ++ e))
      | none =>
          match ← addToIndex ns req.id with
          | some e => pure (.error 500 ("index update failed: " ++ e))
          | none =>
              Site.lift (enqueue req.id)
              pure (.created req.id)

/-- `createTaskHandler`. -/
def createTaskHandler (env : Env) (ns : String) (r : Request CreateTaskReq) :
    SiteCode CreateReply :=
  match createTaskRequest env r with
  | .error reply => pure reply
  | .ok req => do
      let now ← Site.lift timeNow
      match ← Site.lift (store (PGStore.createJob
        ⟨req.id, req.image, req.command, .queued, now, 0⟩)) with
      | .error e => pure (.error 500 ("db create failed: " ++ e.text))
      | .ok _ => publishTask ns req now

/-- The body of the loop of `restoreJobsFromDemand`. -/
def restoreJob (ns : String) (j : DBJob) : SiteCode Unit := do
  let _ ← Site.putJSON (.taskMeta j.id) ⟨j.id, j.createdAt, j.image, j.command⟩
  let now ← Site.lift timeNow
  let _ ← Site.putMirror (.state j.id) (queuedState j.id now)
  let _ ← addToIndex ns j.id
  Site.lift (enqueue j.id)

/-- `restoreJobsFromDemand`. -/
def restoreJobsFromDemand (ns : String) : SiteCode Unit := do
  match ← Site.listQueued with
  | .error _ => pure ()
  | .ok jobs => jobs.forM (restoreJob ns)

/-! ## The steps of a creation -/

/-- The steps by which a task is published satisfy `P`: those on its metadata and its state, those
on the shards, and what goes with them. -/
structure PublishSteps (P : Site.Op → Prop) (ns id image : String) (command : Strings) : Prop where
  time : P (.base .timeNow)
  enqueue : P (.base (.enqueue id))
  intn : P (.intn taskIndexShardCount)
  put : ∀ createdAt, P (.key (.taskMeta id) (.putValue ⟨id, createdAt, image, command⟩))
  keep : ∀ createdAt, P (.key (.taskMeta id) (.storeLocal ⟨id, createdAt, image, command⟩))
  state : ∀ now, P (.putJSON (.state id) (queuedState id now))
  shard : ∀ shard op, P (.key (.indexShard ns shard) op)

namespace PublishSteps

variable {P : Site.Op → Prop} {ns id image : String} {command : Strings}

/-- The step that reads the clock. -/
theorem time_now (h : PublishSteps P ns id image command) :
    (Site.lift timeNow).Always (fun _ _ => True) P :=
  ⟨h.time, fun _ _ => trivial⟩

/-- The steps of the put of the metadata. -/
theorem put_meta (h : PublishSteps P ns id image command) (createdAt : Time) :
    (Site.putJSON (.taskMeta id) ⟨id, createdAt, image, command⟩).Always (fun _ _ => True) P :=
  Site.put_json_always_of (h.put createdAt) (h.keep createdAt)

/-- The steps of the put of the state. -/
theorem put_state (h : PublishSteps P ns id image command) (now : Time) :
    (Site.putMirror (.state id) (queuedState id now)).Always (fun _ _ => True) P :=
  ⟨h.state now, fun _ _ => trivial⟩

/-- The steps of `addToIndex`. -/
theorem add_to_index (h : PublishSteps P ns id image command) :
    (addToIndex ns id).Always (fun _ _ => True) P :=
  add_to_index_always h.intn h.time h.shard

/-- The steps of `publishTask`. -/
theorem publish_task {req : CreateTaskReq} (h : PublishSteps P ns req.id req.image req.command)
    (now : Time) : (publishTask ns req now).Always (fun _ _ => True) P := by
  refine Prog.always_bind (h.put_meta now) fun result => ?_
  cases result with
  | some e => trivial
  | none =>
      refine Prog.always_bind (h.put_state _) fun result => ?_
      cases result with
      | some e => trivial
      | none =>
          refine Prog.always_bind h.add_to_index fun result => ?_
          cases result with
          | some e => trivial
          | none => exact ⟨h.enqueue, fun _ _ => trivial⟩

/-- The steps of `createTaskHandler`. -/
theorem create_task_handler {env : Env} {r : Request CreateTaskReq}
    (h : ∀ req, createTaskRequest env r = .ok req →
      PublishSteps P ns req.id req.image req.command ∧ ∀ now, P (.base (.sql (.createJob
        ⟨req.id, req.image, req.command, .queued, now, 0⟩)))) :
    (createTaskHandler env ns r).Always (fun _ _ => True) P := by
  unfold createTaskHandler
  cases hreq : createTaskRequest env r with
  | error reply => trivial
  | ok req =>
      obtain ⟨hpublish, hrow⟩ := h req hreq
      refine ⟨hpublish.time, fun now _ => ⟨hrow now, fun result _ => ?_⟩⟩
      cases result with
      | error e => trivial
      | ok _ => exact hpublish.publish_task now

/-- The steps of the loop over the tasks that `--create` names. -/
theorem create_from_flag (h : PublishSteps P ns id image command)
    (hindex : ∀ op, P (.key (.index ns) op))
    (hrow : ∀ now, P (.base (.sql (.createJob ⟨id, image, command, .queued, now, 0⟩)))) :
    (createFromFlag ns image command id).Always (fun _ _ => True) P := by
  refine Prog.always_bind (Prog.always_bind h.time_now fun now => ?_) fun _ => ?_
  · refine Prog.always_bind (h.put_meta now) fun result => ?_
    cases result with
    | some e => trivial
    | none =>
        refine Prog.always_bind (h.put_state _) fun result => ?_
        cases result with
        | some e => trivial
        | none => exact Prog.always_embed hindex _
  · refine ⟨h.time, fun now _ => ⟨hrow now, fun result _ => ?_⟩⟩
    cases result <;> exact ⟨h.enqueue, fun _ _ => trivial⟩

/-- The steps of the loop of `restoreJobsFromDemand`. -/
theorem restore_job {j : DBJob} (h : PublishSteps P ns j.id j.image j.command) :
    (restoreJob ns j).Always (fun _ _ => True) P := by
  refine Prog.always_bind (h.put_meta j.createdAt) fun _ => ?_
  refine Prog.always_bind h.time_now fun now => ?_
  refine Prog.always_bind (h.put_state _) fun _ => ?_
  exact Prog.always_bind h.add_to_index fun _ => ⟨h.enqueue, fun _ _ => trivial⟩

end PublishSteps

/-! ## What the index lists -/

namespace Site

/-- The ids in the shards of a namespace. -/
def listed (s : Site) (ns : String) : List String :=
  (List.range taskIndexShardCount).flatMap fun shard =>
    ((s.found (.indexShard ns shard)).getD default).ids

variable {s s' : Site} {ns id : String}

/-- An id is listed when it is in a shard. -/
theorem mem_listed :
    id ∈ s.listed ns ↔ ∃ shard < taskIndexShardCount,
      id ∈ ((s.found (.indexShard ns shard)).getD default).ids := by
  unfold listed
  rw [List.mem_flatMap]
  simp only [List.mem_range]

/-- What leaves the shards alone leaves the list alone. -/
theorem listed_of_found
    (h : ∀ shard, s'.found (.indexShard ns shard) = s.found (.indexShard ns shard)) :
    s'.listed ns = s.listed ns := by
  unfold listed
  exact List.flatMap_congr fun shard _ => by rw [h shard]

/-- Writing metadata leaves the list alone. -/
theorem listed_write_meta (s : Site) (ns id : String) (m : TaskMeta) :
    (s.write (.taskMeta id) m).listed ns = s.listed ns := by
  refine listed_of_found fun shard => ?_
  have hne : DirKey.indexShard ns shard ≠ .taskMeta id := nofun
  exact found_write_of_ne hne s m

/-- A shard that is written with one more id lists that id too. -/
theorem mem_listed_write {shard : ℕ} (hshard : shard < taskIndexShardCount) {idx : Dht.TaskIndex}
    (hids : idx.ids = ((s.found (.indexShard ns shard)).getD default).ids ++ [id]) (x : String) :
    x ∈ (s.write (.indexShard ns shard) idx).listed ns ↔ x ∈ s.listed ns ∨ x = id := by
  rw [mem_listed, mem_listed]
  have hother : ∀ n, n ≠ shard →
      (s.write (.indexShard ns shard) idx).found (.indexShard ns n) =
        s.found (.indexShard ns n) := by
    intro n hn
    refine @found_write_of_ne (.indexShard ns shard) (.indexShard ns n) ?_ s idx
    intro heq
    injection heq with _ heq
    exact hn heq
  constructor
  · rintro ⟨n, hn, hx⟩
    by_cases hsame : n = shard
    · subst hsame
      rw [found_write_self, Option.getD_some, hids] at hx
      rcases List.mem_append.mp hx with hx | hx
      · exact .inl ⟨n, hn, hx⟩
      · exact .inr (List.mem_singleton.mp hx)
    · rw [hother n hsame] at hx
      exact .inl ⟨n, hn, hx⟩
  · rintro (⟨n, hn, hx⟩ | rfl)
    · refine ⟨n, hn, ?_⟩
      by_cases hsame : n = shard
      · subst hsame
        rw [found_write_self, Option.getD_some, hids]
        exact List.mem_append_left _ hx
      · rw [hother n hsame]
        exact hx
    · refine ⟨shard, hshard, ?_⟩
      rw [found_write_self, Option.getD_some, hids]
      exact List.mem_append_right _ List.mem_cons_self

/-- The scan adds the ids of every shard that it reads. -/
theorem ensures_scan_shards (shards : List ℕ) (ids : List String) :
    (scanShards ns shards ids).Ensures effect Reliable s fun result s' =>
      s' = s ∧ result = ids ++ shards.flatMap fun shard =>
        ((s.found (.indexShard ns shard)).getD default).ids := by
  induction shards generalizing ids with
  | nil => exact ⟨rfl, (List.append_nil ids).symm⟩
  | cons shard rest ih =>
      refine Prog.ensures_bind ((ensures_get_json _).mono ?_)
      rintro result t ⟨rfl, hresult⟩
      cases hfound : t.found (.indexShard ns shard) with
      | none =>
          cases result with
          | ok idx => exact nomatch hfound.symm.trans ((hresult idx).mp rfl)
          | error e =>
              refine (ih ids).mono ?_
              rintro result' t' ⟨rfl, rfl⟩
              refine ⟨rfl, ?_⟩
              rw [List.flatMap_cons, hfound]
              rfl
      | some idx =>
          obtain rfl : result = .ok idx := (hresult idx).mpr hfound
          refine (ih (ids ++ idx.ids)).mono ?_
          rintro result' t' ⟨rfl, rfl⟩
          refine ⟨rfl, ?_⟩
          rw [List.flatMap_cons, hfound, List.append_assoc]
          rfl

/-- `ListFromIndex` returns the ids in the shards. -/
theorem ensures_list_from_index :
    (listFromIndex ns).Ensures effect Reliable s fun ids s' => s' = s ∧ ids = s.listed ns := by
  refine (ensures_scan_shards _ []).mono ?_
  rintro ids t ⟨rfl, rfl⟩
  exact ⟨rfl, rfl⟩

/-- The id was entered into the index of the namespace, and nothing else changed. -/
structure Entered (ns id : String) (s s' : Site) : Prop where
  world : s'.world = s.world
  others : ∀ k, (∀ shard, k ≠ .indexShard ns shard) → s'.found k = s.found k
  listed : ∀ x, x ∈ s'.listed ns ↔ x ∈ s.listed ns ∨ x = id

/-- An id that is listed already is entered by doing nothing. -/
theorem entered_of_mem (h : id ∈ s.listed ns) : Entered ns id s s :=
  ⟨rfl, fun _ _ => rfl, fun _ => ⟨.inl, fun hx => hx.elim (fun hmem => hmem) fun heq => heq ▸ h⟩⟩

/-- A shard that is written with one more id enters that id. -/
theorem entered_of_write {shard : ℕ} (hshard : shard < taskIndexShardCount) {idx : Dht.TaskIndex}
    (hids : idx.ids = ((s.found (.indexShard ns shard)).getD default).ids ++ [id]) :
    Entered ns id s (s.write (.indexShard ns shard) idx) where
  world := rfl
  others _ hk := found_write_of_ne (hk shard) s idx
  listed := mem_listed_write hshard hids

/-- The index that was read is entered, or has the id already. -/
theorem ensures_enter_shard {shard : ℕ} (hshard : shard < taskIndexShardCount) {idx : Dht.TaskIndex}
    (hidx : (s.found (.indexShard ns shard)).getD default = idx) :
    (enterShard ns id shard idx).Ensures effect Reliable s fun result s' =>
      result = none ∧ Entered ns id s s' := by
  unfold enterShard
  split
  next hmem => exact ⟨rfl, entered_of_mem (mem_listed.mpr ⟨shard, hshard, hidx ▸ hmem⟩)⟩
  next =>
    refine Prog.ensures_bind_state ensures_lift_time_now fun now => ?_
    refine (ensures_put_json _ _).mono ?_
    rintro result t ⟨rfl, rfl⟩
    exact ⟨rfl, entered_of_write hshard (by rw [hidx])⟩

/-- `addToIndex` enters its id, whatever shard it picks. -/
theorem ensures_add_to_index :
    (addToIndex ns id).Ensures effect Reliable s fun result s' =>
      result = none ∧ Entered ns id s s' := by
  refine Prog.ensures_bind ((ensures_intn _).mono ?_)
  rintro shard t ⟨rfl, hshard⟩
  have hlt : shard < taskIndexShardCount := hshard (by decide)
  refine Prog.ensures_bind ((ensures_get_json _).mono ?_)
  rintro result t ⟨rfl, hresult⟩
  cases result with
  | ok idx =>
      have hfound := (hresult idx).mp rfl
      exact ensures_enter_shard hlt (by rw [hfound, Option.getD_some])
  | error e =>
      refine ensures_enter_shard hlt ?_
      cases hfound : t.found (.indexShard ns shard) with
      | none => rfl
      | some idx => exact nomatch (hresult idx).mpr hfound

end Site

/-! ## What the paths do -/

section Paths

open Site

variable {s : Site} {ns : String}

/-- Once the row is there, the task is created and listed. -/
theorem ensures_publish_task (req : CreateTaskReq) (now : Time) :
    (publishTask ns req now).Ensures Site.effect Site.Reliable s fun reply s' =>
      reply = .created req.id ∧ ∀ x, x ∈ s'.listed ns ↔ x ∈ s.listed ns ∨ x = req.id := by
  refine Prog.ensures_bind_eq (Site.ensures_put_json _ _) ?_
  refine Prog.ensures_bind_eq (ensures_put_mirror _ _) ?_
  refine Prog.ensures_bind (ensures_add_to_index.mono ?_)
  rintro result t ⟨rfl, hentered⟩
  refine Prog.ensures_bind (ensures_lift ((ensures_enqueue _).mono ?_))
  rintro _ w -
  refine ⟨rfl, fun x => ?_⟩
  rw [← listed_write_meta s ns req.id ⟨req.id, now, req.image, req.command⟩]
  exact hentered.listed x

/-- A task that `createTaskHandler` reports as created is listed, and no other is lost. -/
theorem ensures_create_task_handler (env : Env) (r : Request CreateTaskReq) :
    (createTaskHandler env ns r).Ensures Site.effect Site.Reliable s fun reply s' =>
      (∀ x ∈ s.listed ns, x ∈ s'.listed ns) ∧
        ∀ id, reply = .created id → id ∈ s'.listed ns := by
  unfold createTaskHandler
  cases hreq : createTaskRequest env r with
  | error reply =>
      refine ⟨fun _ hx => hx, ?_⟩
      rintro id rfl
      unfold createTaskRequest at hreq
      grind
  | ok req =>
      refine Prog.ensures_bind_state ensures_lift_time_now fun now => ?_
      refine Prog.ensures_bind (ensures_lift (Prog.ensures_of_forall fun result w => ?_))
      cases result with
      | error e => exact ⟨fun _ hx => hx, fun _ => nofun⟩
      | ok _ =>
          refine (ensures_publish_task req now).mono ?_
          rintro reply t ⟨rfl, hlisted⟩
          refine ⟨fun x hx => (hlisted x).mpr (.inl hx), ?_⟩
          rintro id hid
          obtain rfl : req.id = id := CreateReply.created.inj hid
          exact (hlisted req.id).mpr (.inr rfl)

/-- `createTask` succeeds, and the index that is read lists what it listed before. -/
theorem ensures_create_task (id image : String) (cmd : Strings) :
    (createTask ns id image cmd).Ensures Site.effect Site.Reliable s fun result s' =>
      result = .ok () ∧ s'.listed ns = s.listed ns := by
  refine Prog.ensures_bind_state ensures_lift_time_now fun now => ?_
  refine Prog.ensures_bind_eq (Site.ensures_put_json _ _) ?_
  refine Prog.ensures_bind_eq (ensures_put_mirror _ _) ?_
  refine (ensures_put_json_cas (.index ns) fun _ _ => ⟨_, rfl⟩).mono ?_
  rintro result t ⟨rfl, -, hfound⟩
  refine ⟨rfl, ?_⟩
  rw [← listed_write_meta s ns id ⟨id, now, image, cmd⟩]
  exact listed_of_found fun shard => hfound _ nofun

/-- The loop over the flag creates every task, and lists none of them. -/
theorem ensures_create_each (image : String) (cmd : Strings) (ids : List String) :
    (createEach ns image cmd ids).Ensures Site.effect Site.Reliable s fun results s' =>
      results = ids.map (fun id => (id, .ok ())) ∧ s'.listed ns = s.listed ns := by
  induction ids generalizing s with
  | nil => exact ⟨rfl, rfl⟩
  | cons id rest ih =>
      have hbody : (createFromFlag ns image cmd id).Ensures Site.effect Site.Reliable s
          fun result s' => result = .ok () ∧ s'.listed ns = s.listed ns := by
        refine Prog.ensures_bind ((ensures_create_task id image cmd).mono ?_)
        rintro result t ⟨rfl, hlisted⟩
        refine Prog.ensures_bind_state ensures_lift_time_now fun now => ?_
        refine Prog.ensures_bind (ensures_lift (Prog.ensures_of_forall fun _ w => ?_))
        refine Prog.ensures_bind (ensures_lift (Prog.ensures_of_forall fun _ w' => ?_))
        exact ⟨rfl, hlisted⟩
      refine Prog.ensures_bind (hbody.mono ?_)
      rintro result t ⟨rfl, hlisted⟩
      refine Prog.ensures_bind (ih.mono ?_)
      rintro results t' ⟨rfl, hlisted'⟩
      exact ⟨rfl, hlisted'.trans hlisted⟩

/-- The job has its records in the directory: metadata as in its row, and a queued state. -/
structure Published (id : String) (row : Row) (s : Site) : Prop where
  taskMeta : ∃ m, s.found (.taskMeta id) = some m ∧ m.image = row.image ∧ m.command = row.command
  state : ∃ st, s.world.dht (.state id) = some st ∧ st.status = .queued

/-- The records of the job were written and its id was entered; the other jobs keep theirs. -/
structure Restored (ns : String) (j : DBJob) (s s' : Site) : Prop where
  db : s'.world.db = s.world.db
  listed : ∀ x, x ∈ s'.listed ns ↔ x ∈ s.listed ns ∨ x = j.id
  taskMeta : s'.found (.taskMeta j.id) = some ⟨j.id, j.createdAt, j.image, j.command⟩
  state : ∃ now, s'.world.dht (.state j.id) = some (queuedState j.id now)
  metaKept : ∀ id, id ≠ j.id → s'.found (.taskMeta id) = s.found (.taskMeta id)
  stateKept : ∀ id, id ≠ j.id → s'.world.dht (.state id) = s.world.dht (.state id)

/-- The body of the loop restores its job. -/
theorem ensures_restore_job (j : DBJob) :
    (restoreJob ns j).Ensures Site.effect Site.Reliable s fun _ s' => Restored ns j s s' := by
  refine Prog.ensures_bind_eq (Site.ensures_put_json _ _) ?_
  refine Prog.ensures_bind_state ensures_lift_time_now fun now => ?_
  refine Prog.ensures_bind_eq (ensures_put_mirror _ _) ?_
  refine Prog.ensures_bind (ensures_add_to_index.mono ?_)
  rintro result t ⟨rfl, hentered⟩
  refine ensures_lift ((ensures_enqueue _).mono ?_)
  rintro _ w ⟨hdb, hdht⟩
  -- the enqueue touches neither the database nor the DHT, and `addToIndex` only the shards
  have hworld := hentered.world
  have hfound : ∀ id, t.found (.taskMeta id) =
      (s.write (.taskMeta j.id) ⟨j.id, j.createdAt, j.image, j.command⟩).found (.taskMeta id) :=
    fun id => hentered.others (.taskMeta id) fun _ => nofun
  constructor
  case db => rw [hdb, hworld]; rfl
  case listed =>
    intro x
    rw [← listed_write_meta s ns j.id ⟨j.id, j.createdAt, j.image, j.command⟩]
    exact hentered.listed x
  case taskMeta => exact (hfound j.id).trans (found_write_self s (.taskMeta j.id) _)
  case state =>
    refine ⟨now, ?_⟩
    rw [hdht, hworld]
    exact s.world.write_dht_self (.state j.id) _
  case metaKept =>
    intro id hid
    exact (hfound id).trans (found_write_of_ne (by simpa using hid) s _)
  case stateKept =>
    intro id hid
    rw [hdht, hworld]
    exact World.write_dht_of_ne (by simpa using hid) s.world _

/-- What the loop of `restoreJobsFromDemand` has done after the jobs in `before`. -/
structure RestoredUpTo (ns : String) (s₀ : Site) (before : List DBJob) (s : Site) : Prop where
  db : s.world.db = s₀.world.db
  listed : ∀ x, x ∈ s.listed ns ↔ x ∈ s₀.listed ns ∨ ∃ j ∈ before, j.id = x
  published : ∀ j ∈ before, ∀ row, s₀.world.db.lookup j.id = some row → Published j.id row s

/-- One more job is restored. -/
theorem RestoredUpTo.snoc {s₀ s' : Site} {before : List DBJob} {j : DBJob}
    (h : RestoredUpTo ns s₀ before s) (hj : j ∈ queuedJobs s₀.world.db)
    (hrestored : Restored ns j s s') : RestoredUpTo ns s₀ (before ++ [j]) s' where
  db := hrestored.db.trans h.db
  listed x := by
    rw [hrestored.listed x, h.listed x, or_assoc]
    refine or_congr_right ⟨?_, ?_⟩
    · rintro (⟨i, hi, rfl⟩ | rfl)
      · exact ⟨i, List.mem_append_left _ hi, rfl⟩
      · exact ⟨j, List.mem_append_right _ List.mem_cons_self, rfl⟩
    · rintro ⟨i, hi, rfl⟩
      rcases List.mem_append.mp hi with hi | hi
      · exact .inl ⟨i, hi, rfl⟩
      · exact .inr (congrArg DBJob.id (List.mem_singleton.mp hi))
  published := by
    intro i hi row hrow
    by_cases hid : i.id = j.id
    · -- the records written last are those of this job, whose columns are those of its row
      rw [hid] at hrow ⊢
      obtain ⟨row', hrow', -, hjob⟩ := mem_queued_jobs.mp hj
      obtain rfl : row' = row := Option.some.inj (hrow'.symm.trans hrow)
      obtain ⟨now, hstate⟩ := hrestored.state
      refine ⟨⟨_, hrestored.taskMeta, ?_, ?_⟩, _, hstate, rfl⟩
      · exact congrArg DBJob.image hjob
      · exact congrArg DBJob.command hjob
    · have hmem : i ∈ before := by
        rcases List.mem_append.mp hi with hmem | hmem
        · exact hmem
        · exact absurd (congrArg DBJob.id (List.mem_singleton.mp hmem)) hid
      have hold := h.published i hmem row hrow
      refine ⟨?_, ?_⟩
      · rw [hrestored.metaKept i.id hid]
        exact hold.taskMeta
      · rw [hrestored.stateKept i.id hid]
        exact hold.state

/-- `restoreJobsFromDemand` restores the jobs that `ListQueued` returns. -/
theorem restore_run {inputs : ℕ → Site.Input} (hreliable : ∀ n, Site.Reliable (inputs n)) :
    let s' := ((restoreJobsFromDemand ns).run Site.effect inputs s).state
    match (inputs 0).fault with
    | some _ => s' = s
    | none => RestoredUpTo ns s (queuedJobs s.world.db) s' := by
  cases hfault : (inputs 0).fault with
  | some e =>
      simp only [restoreJobsFromDemand, listQueued, Prog.perform_bind, Prog.run, Site.effect,
        hfault]
      rfl
  | none =>
      simp only [restoreJobsFromDemand, listQueued, Prog.perform_bind, Prog.run, Site.effect,
        hfault]
      have hloop : ((queuedJobs s.world.db).forM (restoreJob ns)).Ensures Site.effect Site.Reliable
          s fun _ s' => RestoredUpTo ns s (queuedJobs s.world.db) s' := by
        refine Prog.ensures_forM ⟨rfl, by simp, by simp⟩ ?_
        intro before j t hj ht
        exact (ensures_restore_job j).mono fun _ t' hrestored => ht.snoc hj hrestored
      exact hloop.run fun n => hreliable (n + 1)

end Paths

/-! ## Sequences of creations -/

/-- One of the creation paths, with what it is given. -/
inductive Creation where
  | post (env : Env) (r : Request CreateTaskReq)
  | flags (createStr image cmdStr : String)
  | restore

namespace Creation

/-- The site after a creation. -/
def after (ns : String) (c : Creation) (inputs : ℕ → Site.Input) (s : Site) : Site :=
  match c with
  | post env r => ((createTaskHandler env ns r).run Site.effect inputs s).state
  | flags createStr image cmdStr =>
      ((createFromFlags ns createStr image cmdStr).run Site.effect inputs s).state
  | restore => ((restoreJobsFromDemand ns).run Site.effect inputs s).state

/-- The tasks whose creation completes without an error: for the handler the one that it answers,
for the flag those that it logs as created, and for a restart those that `ListQueued` returns. -/
def created (ns : String) (c : Creation) (inputs : ℕ → Site.Input) (s : Site) : List String :=
  match c with
  | post env r =>
      match ((createTaskHandler env ns r).run Site.effect inputs s).value with
      | .created id => [id]
      | .error _ _ => []
  | flags createStr image cmdStr =>
      ((createFromFlags ns createStr image cmdStr).run Site.effect inputs s).value.filterMap
        fun entry => match entry.2 with
          | .ok _ => some entry.1
          | .error _ => none
  | restore =>
      match (inputs 0).fault with
      | some _ => []
      | none => (Site.queuedJobs s.world.db).map DBJob.id

end Creation

/-- The site after a sequence of creations, each with its inputs. -/
def afterCreations (ns : String) (s : Site) : List (Creation × (ℕ → Site.Input)) → Site
  | [] => s
  | (c, inputs) :: rest => afterCreations ns (c.after ns inputs s) rest

/-- `ListFromIndex` returns the id, when the DHT answers it. -/
def Discoverable (ns id : String) (s : Site) : Prop :=
  ∀ inputs : ℕ → Site.Input, (∀ n, Site.Reliable (inputs n)) →
    id ∈ ((listFromIndex ns).run Site.effect inputs s).value

section Sequences

variable {ns id : String} {s : Site}

/-- A task is discoverable when its id is in a shard. -/
theorem discoverable_iff : Discoverable ns id s ↔ id ∈ s.listed ns := by
  have hvalue : ∀ inputs : ℕ → Site.Input, (∀ n, Site.Reliable (inputs n)) →
      ((listFromIndex ns).run Site.effect inputs s).value = s.listed ns :=
    fun inputs hinputs => (Site.ensures_list_from_index.run hinputs).2
  constructor
  · intro h
    have hmem := h (fun _ => { now := 0 }) fun _ => rfl
    rwa [hvalue (fun _ => { now := 0 }) fun _ => rfl] at hmem
  · intro h inputs hinputs
    rwa [hvalue inputs hinputs]

variable {inputs : ℕ → Site.Input}

/-- The flag creates the tasks that it names, and leaves the list as it was. -/
theorem flags_created (hreliable : ∀ n, Site.Reliable (inputs n))
    (createStr image cmdStr : String) :
    (Creation.flags createStr image cmdStr).created ns inputs s = words createStr ∧
      ((Creation.flags createStr image cmdStr).after ns inputs s).listed ns = s.listed ns := by
  have hflags : (createFromFlags ns createStr image cmdStr).Ensures Site.effect Site.Reliable s
      fun results s' => results = (words createStr).map (fun id => (id, .ok ())) ∧
        s'.listed ns = s.listed ns := by
    unfold createFromFlags
    split
    · exact ensures_create_each image (flagCommand cmdStr) (words createStr)
    next hempty =>
      obtain rfl : createStr = "" := not_not.mp hempty
      exact ⟨rfl, rfl⟩
  obtain ⟨hvalue, hlisted⟩ := hflags.run hreliable
  refine ⟨?_, hlisted⟩
  unfold Creation.created
  dsimp only
  rw [hvalue, List.filterMap_map]
  exact List.filterMap_some

/-- No creation takes a task off the list. -/
theorem listed_kept (hreliable : ∀ n, Site.Reliable (inputs n)) (c : Creation) :
    ∀ x ∈ s.listed ns, x ∈ (c.after ns inputs s).listed ns := by
  intro x hx
  cases c with
  | post env r => exact ((ensures_create_task_handler env r).run hreliable).1 x hx
  | flags createStr image cmdStr =>
      rw [(flags_created hreliable createStr image cmdStr).2]
      exact hx
  | restore =>
      have hrun := @restore_run s ns inputs hreliable
      show x ∈ ((restoreJobsFromDemand ns).run Site.effect inputs s).state.listed ns
      cases hfault : (inputs 0).fault with
      | some e =>
          simp only [hfault] at hrun
          rwa [hrun]
      | none =>
          simp only [hfault] at hrun
          exact (hrun.listed x).mpr (.inl hx)

/-- A created task is listed, unless the flag created it. -/
theorem created_listed (hreliable : ∀ n, Site.Reliable (inputs n)) {c : Creation}
    (hcreated : id ∈ c.created ns inputs s) :
    id ∈ (c.after ns inputs s).listed ns ∨
      ∃ createStr image cmdStr, c = .flags createStr image cmdStr ∧ id ∈ words createStr := by
  cases c with
  | post env r =>
      have hlisted := ((@ensures_create_task_handler s ns env r).run hreliable).2 id
      unfold Creation.created at hcreated
      dsimp only at hcreated
      split at hcreated
      next jobID hvalue =>
          obtain rfl := List.mem_singleton.mp hcreated
          exact .inl (hlisted hvalue)
      next => exact absurd hcreated List.not_mem_nil
  | flags createStr image cmdStr =>
      rw [(flags_created hreliable createStr image cmdStr).1] at hcreated
      exact .inr ⟨createStr, image, cmdStr, rfl, hcreated⟩
  | restore =>
      have hrun := @restore_run s ns inputs hreliable
      unfold Creation.created at hcreated
      dsimp only at hcreated
      cases hfault : (inputs 0).fault with
      | some e =>
          simp only [hfault] at hcreated
          exact absurd hcreated List.not_mem_nil
      | none =>
          simp only [hfault] at hrun hcreated
          obtain ⟨j, hj, rfl⟩ := List.mem_map.mp hcreated
          exact .inl ((hrun.listed j.id).mpr (.inr ⟨j, hj, rfl⟩))

/-- A sequence is its first part and then the rest. -/
theorem after_creations_append (s : Site) (before after : List (Creation × (ℕ → Site.Input))) :
    afterCreations ns s (before ++ after) =
      afterCreations ns (afterCreations ns s before) after := by
  induction before generalizing s with
  | nil => rfl
  | cons step rest ih => exact ih _

/-- No sequence of creations takes a task off the list. -/
theorem listed_kept_after {steps : List (Creation × (ℕ → Site.Input))}
    (hreliable : ∀ step ∈ steps, ∀ n, Site.Reliable (step.2 n)) (hid : id ∈ s.listed ns) :
    id ∈ (afterCreations ns s steps).listed ns := by
  induction steps generalizing s with
  | nil => exact hid
  | cons step rest ih =>
      refine ih (fun step' hstep' => hreliable step' (List.mem_cons_of_mem step hstep')) ?_
      exact listed_kept (hreliable step List.mem_cons_self) step.1 id hid

/-- A sequence of creations lists every task that it created, from its creation on, exactly when
every task that a flag names was listed before. -/
theorem created_listed_iff (ns : String) (s : Site) (steps : List (Creation × (ℕ → Site.Input)))
    (hreliable : ∀ step ∈ steps, ∀ n, Site.Reliable (step.2 n)) :
    (∀ before c inputs middle after, steps = before ++ (c, inputs) :: (middle ++ after) →
      ∀ id ∈ c.created ns inputs (afterCreations ns s before),
        Discoverable ns id (afterCreations ns s (before ++ (c, inputs) :: middle))) ↔
    (∀ before createStr image cmdStr inputs after,
      steps = before ++ (.flags createStr image cmdStr, inputs) :: after →
      ∀ id ∈ words createStr, Discoverable ns id (afterCreations ns s before)) := by
  constructor
  · intro hkept before createStr image cmdStr inputs after hsteps id hid
    have hinputs : ∀ n, Site.Reliable (inputs n) :=
      hreliable (.flags createStr image cmdStr, inputs) (by simp [hsteps])
    obtain ⟨hcreated, hlisted⟩ :=
      @flags_created ns (afterCreations ns s before) inputs hinputs createStr image cmdStr
    have hafter := hkept before _ inputs [] after hsteps id (hcreated ▸ hid)
    rw [after_creations_append, discoverable_iff] at hafter
    rw [discoverable_iff, ← hlisted]
    exact hafter
  · intro hflags before c inputs middle after hsteps id hid
    have hinputs : ∀ n, Site.Reliable (inputs n) := hreliable (c, inputs) (by simp [hsteps])
    rw [after_creations_append, discoverable_iff]
    show id ∈ (afterCreations ns (c.after ns inputs (afterCreations ns s before)) middle).listed ns
    refine listed_kept_after (fun step hstep => hreliable step (by simp [hsteps, hstep])) ?_
    rcases created_listed hinputs hid with hlisted | ⟨createStr, image, cmdStr, rfl, hword⟩
    · exact hlisted
    · -- the flag does not list its tasks, so this one was listed before
      have hbefore := hflags before createStr image cmdStr inputs (middle ++ after) hsteps id hword
      exact listed_kept hinputs _ id (discoverable_iff.mp hbefore)

end Sequences

namespace Sample

/-- The environment of a control server without authentication. -/
def noAuth : Env := ⟨"1", ""⟩

/-- A task is posted. -/
def posted : Request CreateTaskReq where
  method := "POST"
  path := "/api/tasks"
  header _ := ""
  body := .ok ⟨"job", "alpine", some ["echo"]⟩

/-- Nothing fails. -/
def still (_ : ℕ) : Site.Input := { now := 1 }

/-- The site after the post. -/
def postedSite : Site :=
  ((createTaskHandler noAuth "mc" posted).run Site.effect still Site.empty).state

theorem posted_created :
    ((createTaskHandler noAuth "mc" posted).run Site.effect still Site.empty).value =
      .created "job" := rfl

theorem empty_listed (ns : String) : Site.empty.listed ns = [] := by
  simp [Site.listed, Site.found, Site.empty, default]

/-- A task is posted, and then named by the flag. -/
def creations : List (Creation × (ℕ → Site.Input)) :=
  [(.post noAuth posted, still), (.flags "job" "alpine" "echo", still)]

end Sample

/-- A task that is posted before the flag names it stays listed. -/
theorem created_listed_iff_posted :
    (∀ step ∈ Sample.creations, ∀ n, Site.Reliable (step.2 n)) ∧
      Discoverable "mc" "job" (afterCreations "mc" Site.empty Sample.creations) := by
  have hreliable : ∀ step ∈ Sample.creations, ∀ n, Site.Reliable (step.2 n) := by
    intro step hstep n
    simp only [Sample.creations, List.mem_cons, List.not_mem_nil, or_false] at hstep
    rcases hstep with rfl | rfl <;> rfl
  have hcreated : "job" ∈ (Creation.post Sample.noAuth Sample.posted).created "mc" Sample.still
      Site.empty := by
    unfold Creation.created
    dsimp only
    rw [Sample.posted_created]
    exact List.mem_cons_self
  have hlisted : "job" ∈ ((Creation.post Sample.noAuth Sample.posted).after "mc" Sample.still
      Site.empty).listed "mc" := by
    have hstill : ∀ n, Site.Reliable (Sample.still n) := fun _ => rfl
    rcases created_listed hstill hcreated with hlisted | ⟨_, _, _, hflags, _⟩
    · exact hlisted
    · cases hflags
  refine ⟨hreliable, (created_listed_iff "mc" Site.empty Sample.creations hreliable).mpr ?_ []
    (.post Sample.noAuth Sample.posted) Sample.still [(.flags "job" "alpine" "echo", Sample.still)]
    [] rfl "job" hcreated⟩
  intro before createStr image cmdStr inputs after hsteps id hid
  -- the flag is the second step
  cases before with
  | nil => cases hsteps
  | cons first rest =>
      cases rest with
      | nil =>
          cases hsteps
          have hwords : words "job" = ["job"] := by decide
          rw [hwords] at hid
          obtain rfl := List.mem_singleton.mp hid
          exact discoverable_iff.mpr hlisted
      | cons => simp [Sample.creations] at hsteps

/-- The flag reports its task as created, and no agent can find it. -/
theorem flag_not_listed :
    "job" ∈ (Creation.flags "job" "alpine" "echo").created "mc" Sample.still Site.empty ∧
      ¬ Discoverable "mc" "job"
        ((Creation.flags "job" "alpine" "echo").after "mc" Sample.still Site.empty) := by
  have hflags := @flags_created "mc" Site.empty Sample.still (fun _ => rfl) "job" "alpine" "echo"
  refine ⟨?_, ?_⟩
  · rw [hflags.1]
    decide
  · rw [discoverable_iff, hflags.2, Sample.empty_listed]
    exact List.not_mem_nil

end MutualCloud.Control
